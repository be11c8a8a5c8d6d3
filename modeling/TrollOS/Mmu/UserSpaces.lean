import TrollOS.Mmu.Ownership

/-!
# Runs of the page mapper

The user spaces that are in use, and the requests that make, fill, copy, empty and
give them back.
-/

namespace TrollOS.Mmu

open TrollOS.Lib Frames

/-- A page mapper with the root pointers of the user spaces in use. -/
structure UserSpaces where
  mmu : Mmu
  live : List Nat

inductive Request
  | initUserspace
  | allocAt (virt : Nat) (writeProtected : Bool)
  | switchUserspace (userspace : Nat)
  | cloneUserspace (source target : Nat)
  | clearUserspace (userspace : Nat)
  | freeUserspace (userspace : Nat)

/-- A request is carried out; there is no result when the kernel panics. -/
def UserSpaces.serve (u : UserSpaces) : Request → Option UserSpaces
  | .initUserspace =>
      (Mmu.initUserspace u.mmu).map fun (result, m) =>
        ⟨m, if result.1 = 0 then result.2 :: u.live else u.live⟩
  | .allocAt virt writeProtected =>
      (Mmu.allocAt virt false writeProtected u.mmu).map fun result => ⟨result.2, u.live⟩
  | .switchUserspace userspace =>
      (Mmu.switchUserspace userspace u.mmu).map fun result => ⟨result.2, u.live⟩
  | .cloneUserspace source target =>
      (Mmu.cloneUserspace source target u.mmu).map fun result => ⟨result.2, u.live⟩
  | .clearUserspace userspace =>
      (Mmu.clearUserspace userspace u.mmu).map fun result => ⟨result.2, u.live⟩
  | .freeUserspace userspace =>
      (Mmu.freeUserspace userspace u.mmu).map fun result => ⟨result.2, u.live.erase userspace⟩

def UserSpaces.roots (u : UserSpaces) : List Nat := u.live.map rootLevelFieldAddr

/-- The allocator is not empty when `mmu040_alloc_at` wants a frame. -/
def Supplied (m : Mmu) (rp virt : Nat) : Prop :=
  wanted m.mem virt 3 (rootLevelFieldAddr rp) ≤ m.memLayout.freeFrames

/-- A space is used while it is in use; a copy goes into an empty one. -/
def UserSpaces.Named (u : UserSpaces) : Request → Prop
  | .initUserspace => True
  | .allocAt virt _ => Supplied u.mmu u.mmu.urp virt
  | .switchUserspace userspace => userspace ∈ u.live
  | .cloneUserspace source target =>
      source ∈ u.live ∧ target ∈ u.live ∧ source ≠ target ∧
        below u.mmu.mem 3 (rootLevelFieldAddr target) = []
  | .clearUserspace userspace => userspace ∈ u.live
  | .freeUserspace userspace => userspace ∈ u.live

/-- Pages are put into a space that is in use. -/
def UserSpaces.Allowed (u : UserSpaces) (r : Request) : Prop :=
  u.Named r ∧ ∀ virt writeProtected, r = .allocAt virt writeProtected → u.mmu.urp ∈ u.live

def UserSpaces.Run (permits : UserSpaces → Request → Prop) :
    UserSpaces → List Request → UserSpaces → Prop
  | u, [], u' => u' = u
  | u, r :: rest, u' => permits u r ∧ ∃ v, u.serve r = some v ∧ Run permits v rest u'

structure UserSpaces.Owned (frames : List Nat) (u : UserSpaces) : Prop where
  mapping : u.mmu.mapping = 0
  roles : ∃ chain, Frames.Owned frames u.mmu.frames u.roots chain

section Serve

variable {α : Type} {m : Mmu} {x : Action α} {y : Work α} {frames chain : List Nat} {u : UserSpaces}

/-- An operation through the window, started with an empty stack. -/
theorem run_of_simulates {after : α → Nat} {r : α} {s : Frames}
    (sim : ∀ held, Simulates 0 held x y after) (mapping : m.mapping = 0)
    (ran : y m.frames = some (r, s)) : ∃ m', x m = some (r, m') ∧ Done m m' (after r) (fun _ => 0) s :=
  sim _ m r s mapping (fun _ below => absurd below (Nat.not_lt_zero _)) ran

/-- A handle keeps the address of an aligned root table. -/
theorem rootLevelFieldAddr_addrField {f : Nat} (frame : IsFrame f) :
    rootLevelFieldAddr (rootLevelAddrField f) = f := by
  have aligned := frame.aligned
  unfold rootLevelFieldAddr rootLevelAddrField
  unfold pageSize at aligned
  omega

theorem rootLevelFieldAddr_injective : Function.Injective rootLevelFieldAddr :=
  fun _ _ same => Nat.eq_of_mul_eq_mul_right (by decide) same

theorem UserSpaces.mem_roots {userspace : Nat} (member : userspace ∈ u.live) :
    rootLevelFieldAddr userspace ∈ u.roots := List.mem_map_of_mem member

theorem UserSpaces.roots_erase (u : UserSpaces) (m : Mmu) (userspace : Nat) :
    UserSpaces.roots ⟨m, u.live.erase userspace⟩ = u.roots.erase (rootLevelFieldAddr userspace) :=
  List.map_erase rootLevelFieldAddr_injective _

/-- A new root table becomes the space of the user. -/
theorem initUserspace_some {s : Frames} {f : Nat} (mapping : m.mapping = 0) (got : alloc m.frames = some (f, s))
    (valid : f ≠ 0) :
    ∃ m', initUserspace m = some ((0, rootLevelAddrField f), m') ∧ m'.frames = s ∧ m'.mapping = 0 ∧
      m'.urp = rootLevelAddrField f ∧ m'.srp = m.srp := by
  obtain ⟨m', ran, done⟩ := run_of_simulates (fun _ => Simulates.alloc (by decide) _) mapping got
  refine ⟨{ m' with urp := rootLevelAddrField f }, ?_, done.frames, done.mapping, rfl, done.srp⟩
  unfold initUserspace
  rw [bind_of_some ran, if_neg valid]
  rfl

theorem initUserspace_none (mapping : m.mapping = 0) (empty : m.memLayout.freeFrames = 0) :
    ∃ m', initUserspace m = some ((-enomem, 0), m') ∧ Done m m' 0 (fun _ => 0) m.frames := by
  have got : alloc m.frames = some (0, m.frames) := alloc_empty empty
  obtain ⟨m', ran, done⟩ := run_of_simulates (fun _ => Simulates.alloc (by decide) _) mapping got
  refine ⟨m', ?_, done⟩
  unfold initUserspace
  rw [bind_of_some ran, if_pos rfl]
  rfl

namespace UserSpaces

/-- The same frames, and the same roots. -/
theorem Owned.of_frames {m : Mmu} (owned : u.Owned frames) (same : m.frames = u.mmu.frames)
    (mapping : m.mapping = 0) : Owned frames ⟨m, u.live⟩ := by
  obtain ⟨chain, roles⟩ := owned.roles
  exact ⟨mapping, chain, same ▸ roles⟩

theorem serve_initUserspace_some {h : Nat} (ran : Mmu.initUserspace u.mmu = some ((0, h), m)) :
    u.serve .initUserspace = some ⟨m, h :: u.live⟩ := by
  show (Mmu.initUserspace u.mmu).map _ = _
  rw [ran]
  rfl

theorem serve_initUserspace (owned : u.Owned frames) :
    ∃ v, u.serve .initUserspace = some v ∧ v.Owned frames := by
  obtain ⟨chain, roles⟩ := owned.roles
  by_cases empty : u.mmu.memLayout.freeFrames = 0
  · obtain ⟨m, ran, done⟩ := initUserspace_none owned.mapping empty
    have served : u.serve .initUserspace = some ⟨m, u.live⟩ := by
      show (Mmu.initUserspace u.mmu).map _ = _
      rw [ran]
      rfl
    exact ⟨_, served, owned.of_frames done.frames done.mapping⟩
  · obtain ⟨f, rest, got, valid, roles', -, -⟩ := roles.alloc empty
    obtain ⟨m, ran, frames', mapping, -, -⟩ := initUserspace_some owned.mapping got valid
    have served := serve_initUserspace_some ran
    have frame : IsFrame f := roles'.valid_tree List.mem_cons_self f List.mem_cons_self
    have roots : roots ⟨m, rootLevelAddrField f :: u.live⟩ = f :: u.roots :=
      congrArg (· :: u.roots) (rootLevelFieldAddr_addrField frame)
    refine ⟨_, served, mapping, rest, ?_⟩
    rw [roots]
    exact frames' ▸ roles'

/-- The page and the space after `mmu040_alloc_at`. -/
theorem allocAt_owned {rp : Nat} (mapping : m.mapping = 0) (supervisor writeProtected : Bool) (virt : Nat)
    {roots : List Nat} (current : m.rootPointer supervisor = rp) (roles : Frames.Owned frames m.frames roots chain)
    (member : rootLevelFieldAddr rp ∈ roots) (supplied : Supplied m rp virt) :
    ∃ frame m' used rest, Mmu.allocAt virt supervisor writeProtected m = some (frame, m') ∧
      Done m m' 0 (fun _ => 0) m'.frames ∧
        Placement m.frames m'.frames virt supervisor writeProtected 3 (rootLevelFieldAddr rp) frame
          chain used rest ∧
          Frames.Owned frames m'.frames roots rest ∧
            Moved m.frames m'.frames (chain ++ tree m.mem (rootLevelFieldAddr rp))
              (rest ++ tree m'.mem (rootLevelFieldAddr rp)) (roots.erase (rootLevelFieldAddr rp)) := by
  obtain ⟨frame, s, used, rest, ran, placement, roles', moved⟩ :=
    roles.place member virt supervisor writeProtected supplied
  obtain ⟨m', ran', done⟩ := run_of_simulates
    (fun _ => allocBelow_simulates (by decide) rp virt supervisor writeProtected) mapping ran
  obtain rfl := done.frames
  refine ⟨frame, m', used, rest, ?_, done, placement, roles', moved⟩
  rw [allocAt_eq, current]
  exact ran'

theorem serve_allocAt (owned : u.Owned frames) {virt : Nat} {writeProtected : Bool}
    (current : u.mmu.urp ∈ u.live) (supplied : Supplied u.mmu u.mmu.urp virt) :
    ∃ v, u.serve (.allocAt virt writeProtected) = some v ∧ v.Owned frames := by
  obtain ⟨chain, roles⟩ := owned.roles
  obtain ⟨frame, m, used, rest, ran, done, -, roles', -⟩ := allocAt_owned owned.mapping false
    writeProtected virt rfl roles (mem_roots current) supplied
  have served : u.serve (.allocAt virt writeProtected) = some ⟨m, u.live⟩ := by
    show (Mmu.allocAt virt false writeProtected u.mmu).map _ = _
    rw [ran]
    rfl
  exact ⟨_, served, done.mapping, rest, roles'⟩

/-- The copy, complete or not, and the spaces after `mmu040_clone_userspace`. -/
theorem cloneUserspace_owned (owned : u.Owned frames) {source target : Nat}
    (named : u.Named (.cloneUserspace source target)) :
    ∃ r m rest, Mmu.cloneUserspace source target u.mmu = some (r, m) ∧ m.mapping = 0 ∧
      Frames.Owned frames m.frames u.roots rest ∧
        Agree u.mmu.mem m.mem (trees u.mmu.mem (u.roots.erase (rootLevelFieldAddr target))) ∧
          (r = 0 ↔ (below u.mmu.mem 3 (rootLevelFieldAddr source)).length ≤
            u.mmu.memLayout.freeFrames) ∧
            (r = 0 → Copied u.mmu.mem m.mem 3 (rootLevelFieldAddr source)
              (rootLevelFieldAddr target)) := by
  obtain ⟨chain, roles⟩ := owned.roles
  obtain ⟨sourceIn, targetIn, other, empty⟩ := named
  have apart : rootLevelFieldAddr source ≠ rootLevelFieldAddr target :=
    fun same => other (rootLevelFieldAddr_injective same)
  obtain ⟨r, s, used, rest, ran, -, roles', moved, -, enough, copied⟩ :=
    roles.copy (mem_roots sourceIn) (mem_roots targetIn) apart empty
  obtain ⟨m, ran', done⟩ := run_of_simulates
    (fun _ => cloneUserspace_simulates (by decide) source target) owned.mapping ran
  obtain rfl := done.frames
  exact ⟨r, m, rest, ran', done.mapping, roles', moved.agree, enough, copied⟩

theorem serve_cloneUserspace (owned : u.Owned frames) {source target : Nat}
    (named : u.Named (.cloneUserspace source target)) :
    ∃ v, u.serve (.cloneUserspace source target) = some v ∧ v.Owned frames := by
  obtain ⟨r, m, rest, ran, mapping, roles', -⟩ := cloneUserspace_owned owned named
  have served : u.serve (.cloneUserspace source target) = some ⟨m, u.live⟩ := by
    show (Mmu.cloneUserspace source target u.mmu).map _ = _
    rw [ran]
    rfl
  exact ⟨_, served, mapping, rest, roles'⟩

theorem serve_clearUserspace (owned : u.Owned frames) {userspace : Nat} (member : userspace ∈ u.live) :
    ∃ v, u.serve (.clearUserspace userspace) = some v ∧ v.Owned frames := by
  obtain ⟨chain, roles⟩ := owned.roles
  obtain ⟨s, freed, ran, -, -, -, roles', -⟩ := roles.clear (mem_roots member)
  obtain ⟨m, ran', done⟩ := run_of_simulates
    (fun _ => clearUserspace_simulates (by decide) userspace) owned.mapping ran
  obtain rfl := done.frames
  have served : u.serve (.clearUserspace userspace) = some ⟨m, u.live⟩ := by
    show (Mmu.clearUserspace userspace u.mmu).map _ = _
    rw [ran']
    rfl
  exact ⟨_, served, done.mapping, _, roles'⟩

theorem serve_freeUserspace (owned : u.Owned frames) {userspace : Nat} (member : userspace ∈ u.live) :
    ∃ v, u.serve (.freeUserspace userspace) = some v ∧ v.Owned frames := by
  obtain ⟨chain, roles⟩ := owned.roles
  obtain ⟨s, chain', ran, -, roles', -, -⟩ := roles.free (mem_roots member)
  obtain ⟨m, ran', done⟩ := run_of_simulates
    (fun _ => freeUserspace_simulates (by decide) userspace) owned.mapping ran
  obtain rfl := done.frames
  have served : u.serve (.freeUserspace userspace) = some ⟨m, u.live.erase userspace⟩ := by
    show (Mmu.freeUserspace userspace u.mmu).map _ = _
    rw [ran']
    rfl
  refine ⟨_, served, done.mapping, chain', ?_⟩
  rw [roots_erase]
  exact roles'

/-- An allowed request is carried out and keeps every frame in one role. -/
theorem serve_owned {r : Request} (owned : u.Owned frames) (allowed : u.Allowed r) :
    ∃ v, u.serve r = some v ∧ v.Owned frames := by
  obtain ⟨named, current⟩ := allowed
  cases r with
  | initUserspace => exact serve_initUserspace owned
  | allocAt virt writeProtected => exact serve_allocAt owned (current virt writeProtected rfl) named
  | switchUserspace userspace =>
      exact ⟨⟨{ u.mmu with urp := userspace }, u.live⟩, rfl, owned.of_frames rfl owned.mapping⟩
  | cloneUserspace source target => exact serve_cloneUserspace owned named
  | clearUserspace userspace => exact serve_clearUserspace owned named
  | freeUserspace userspace => exact serve_freeUserspace owned named

/-- After every run of allowed requests each frame is on the free list, once, or in the tree
of one space, once; and the next allowed request does not fail. -/
theorem owned_run {requests : List Request} {u v : UserSpaces} (start : u.Owned frames)
    (run : Run Allowed u requests v) :
    v.Owned frames ∧ ∀ r, v.Allowed r → ∃ w, v.serve r = some w := by
  induction requests generalizing u with
  | nil =>
      obtain rfl := run
      refine ⟨start, fun r allowed => ?_⟩
      obtain ⟨w, served, -⟩ := serve_owned start allowed
      exact ⟨w, served⟩
  | cons r rest ih =>
      obtain ⟨allowed, w, served, later⟩ := run
      obtain ⟨w', served', owned⟩ := serve_owned start allowed
      obtain rfl := Option.some.inj (served.symm.trans served')
      exact ih owned later

/-- A new space has a root table no other space has. -/
theorem Owned.init (owned : u.Owned frames) (left : u.mmu.memLayout.freeFrames ≠ 0) :
    ∃ target m, Mmu.initUserspace u.mmu = some ((0, target), m) ∧
      UserSpaces.Owned frames ⟨m, target :: u.live⟩ ∧ target ∉ u.live ∧
        below m.mem 3 (rootLevelFieldAddr target) = [] ∧
          Agree u.mmu.mem m.mem (trees u.mmu.mem u.roots) := by
  obtain ⟨chain, roles⟩ := owned.roles
  obtain ⟨f, rest, got, valid, roles', empty, moved⟩ := roles.alloc left
  obtain ⟨m, ran, same, mapping, -, -⟩ := initUserspace_some owned.mapping got valid
  have frame : IsFrame f := roles'.valid_tree List.mem_cons_self f List.mem_cons_self
  have root := rootLevelFieldAddr_addrField frame
  have roots : roots ⟨m, rootLevelAddrField f :: u.live⟩ = f :: u.roots := congrArg (· :: u.roots) root
  have mem : m.mem = (taken u.mmu.frames f).mem := congrArg Frames.mem same
  refine ⟨rootLevelAddrField f, m, ran, ⟨mapping, rest, ?_⟩, fun member => ?_, ?_, ?_⟩
  · rw [roots]
    exact same ▸ roles'
  · have once := (List.nodup_append.mp (roles'.split.nodup_iff.mpr roles'.distinct)).2.1
    have inRoots := mem_roots member
    rw [root] at inRoots
    rw [trees_cons] at once
    exact (List.nodup_append.mp once).2.2 f List.mem_cons_self f
      (tree_subset inRoots _ List.mem_cons_self) rfl
  · rw [root, mem]
    exact empty
  · rw [mem]
    exact moved.agree

/-- The frame handed out is the first of the free list. -/
theorem alloc_first {s s' : Frames} {f : Nat} (left : s.freeFrames ≠ 0) (got : alloc s = some (f, s')) :
    f = s.freeFrame ∧ s'.freeFrames = s.freeFrames - 1 := by
  unfold Frames.alloc at got
  rw [if_neg left] at got
  split at got
  · obtain ⟨rfl, rfl⟩ := Prod.mk.inj (Option.some.inj got)
    exact ⟨rfl, rfl⟩
  · exact nomatch got

/-- The new space has the first of the free frames as its root table. -/
theorem Owned.init_first (owned : u.Owned frames) (left : u.mmu.memLayout.freeFrames ≠ 0) :
    ∃ m, Mmu.initUserspace u.mmu = some ((0, rootLevelAddrField u.mmu.memLayout.freeFrame), m) ∧
      UserSpaces.Owned frames ⟨m, rootLevelAddrField u.mmu.memLayout.freeFrame :: u.live⟩ ∧
        rootLevelAddrField u.mmu.memLayout.freeFrame ∉ u.live ∧
          below m.mem 3 (rootLevelFieldAddr (rootLevelAddrField u.mmu.memLayout.freeFrame)) = [] ∧
            Agree u.mmu.mem m.mem (trees u.mmu.mem u.roots) ∧
              m.memLayout.freeFrames = u.mmu.memLayout.freeFrames - 1 := by
  obtain ⟨chain, roles⟩ := owned.roles
  obtain ⟨f, rest, got, valid, -, -, -⟩ := roles.alloc left
  obtain ⟨isFirst, count⟩ := alloc_first left got
  obtain ⟨m, ran, same, -, -, -⟩ := initUserspace_some owned.mapping got valid
  obtain ⟨target, m₁, inits, owned₁, fresh, alone, agree⟩ := owned.init left
  obtain ⟨handle, rfl⟩ := Prod.mk.inj (Option.some.inj (ran.symm.trans inits))
  obtain rfl := (Prod.mk.inj handle).2
  have first : f = u.mmu.memLayout.freeFrame := isFirst
  rw [← first]
  exact ⟨m, inits, owned₁, fresh, alone, agree, (congrArg Frames.freeFrames same).trans count⟩

end UserSpaces

end Serve

/-! ## A stale root pointer -/

/-- Frames from the start of the memory, each with a link to the next. -/
def links : Nat → ByteMem
  | 0 => fun _ => 0
  | n + 1 => (links n).store32 (dramStart + n * pageSize) (dramStart + (n + 1) * pageSize)

def freshFrames (n : Nat) : UserSpaces where
  mmu :=
    { mem := links (n - 1)
      memLayout := ⟨n, n, dramStart⟩
      window := fun _ => 0
      mapping := 0
      srp := 0
      urp := 0 }
  live := []

def frameList (n : Nat) : List Nat := (List.range n).map fun i => dramStart + i * pageSize

theorem frameList_valid {n : Nat} (fits : n ≤ 16384) (f : Nat) (member : f ∈ frameList n) : IsFrame f := by
  obtain ⟨i, inRange, rfl⟩ := List.mem_map.mp member
  have small := List.mem_range.mp inRange
  unfold dramStart pageSize
  exact ⟨by unfold pageSize; omega, by omega, by omega⟩

/-- A chain through all the frames makes them the free list of a mapper without spaces. -/
theorem freshFrames_owned {n : Nat} (fits : n ≤ 16384)
    (linked : Chain (fun f => (links (n - 1)).load32 f) dramStart (frameList n)) :
    (freshFrames n).Owned (frameList n) := by
  have pool : Pool (freshFrames n).mmu.frames (frameList n) := by
    refine ⟨linked, ?_, frameList_valid fits⟩
    unfold frameList
    rw [List.length_map, List.length_range]
    exact Nat.le_refl n
  exact ⟨rfl, _, pool, List.append_nil _ ▸ List.Perm.refl _, pool.distinct, pool.frames⟩

theorem taken_zero (s : Frames) (f i : Nat) (small : i < 128) : (taken s f).mem.load32 (f + 4 * i) = 0 :=
  ByteMem.load32_zero_mem s.mem (Nat.le_add_right ..) (by unfold pageSize; omega)

/-- The space whose root table is the first frame. -/
def firstSpace : Nat := rootLevelAddrField dramStart

/-- A space is made, and a page put into it. -/
structure OnePage (n : Nat) (m₁ m : Mmu) : Prop where
  made : Mmu.initUserspace (freshFrames n).mmu = some ((0, firstSpace), m₁)
  current : m₁.urp = firstSpace
  supplied : Supplied m₁ firstSpace 0x1000
  put : ∃ frame, Mmu.allocAt 0x1000 false false m₁ = some (frame, m)
  owned : UserSpaces.Owned (frameList n) ⟨m, [firstSpace]⟩
  pages : (below m.mem 3 dramStart).length = 3
  frames : m.memLayout.freeFrames + 4 = n

theorem firstSpace_root : rootLevelFieldAddr firstSpace = dramStart :=
  rootLevelFieldAddr_addrField ⟨by decide, by decide, by decide⟩

theorem onePage {n : Nat} (fits : n ≤ 16384)
    (linked : Chain (fun f => (links (n - 1)).load32 f) dramStart (frameList n)) (enough : 4 ≤ n) :
    ∃ m₁ m, OnePage n m₁ m := by
  have start : (freshFrames n).Owned (frameList n) := freshFrames_owned fits linked
  have some' : (freshFrames n).mmu.frames.freeFrames ≠ 0 := show n ≠ 0 by omega
  obtain ⟨chain, roles⟩ := start.roles
  obtain ⟨f, rest, got, valid, roles₁, empty, -⟩ := roles.alloc some'
  obtain rfl : f = dramStart := (UserSpaces.alloc_first some' got).1
  obtain ⟨m₁, made, frames₁, mapping₁, urp₁, -⟩ := initUserspace_some start.mapping got valid
  have mem₁ : m₁.mem = (taken (freshFrames n).mmu.frames dramStart).mem := congrArg Frames.mem frames₁
  have zero := taken_zero (freshFrames n).mmu.frames dramStart
  have three : wanted m₁.mem 0x1000 3 dramStart = 3 := mem₁ ▸ wanted_zero zero 0x1000
  have count₁ : m₁.memLayout.freeFrames = n - 1 := congrArg Frames.freeFrames frames₁
  have supplied : Supplied m₁ firstSpace 0x1000 := by
    unfold Supplied
    rw [firstSpace_root, three, count₁]
    omega
  obtain ⟨frame, m, used, left, ran, done, placement, roles₂, -⟩ := UserSpaces.allocAt_owned mapping₁ false false
    0x1000 urp₁ (frames₁ ▸ roles₁) (firstSpace_root.symm ▸ List.mem_cons_self) supplied
  rw [show rootLevelFieldAddr (rootLevelAddrField dramStart) = dramStart from firstSpace_root] at placement
  have count : m.memLayout.freeFrames + 3 = n - 1 := by
    have total := placement.count
    rw [← count₁, ← three]
    exact total
  have pages : (below m.mem 3 dramStart).length = 3 := by
    obtain ⟨changed, grew⟩ := placement.grew
    have before : below m₁.mem 3 dramStart = [] := mem₁ ▸ empty
    have nowhere : lookup m₁.mem 3 dramStart 0x1000 = none := mem₁ ▸ lookup_zero zero 0x1000
    have total := grew.grown.length_eq
    rw [List.length_append, placement.length nowhere] at total
    show (below m.frames.mem 3 dramStart).length = 3
    rw [total]
    show wanted m₁.mem 0x1000 3 dramStart + (below m₁.mem 3 dramStart).length = 3
    rw [three, before]
    rfl
  have roots : UserSpaces.roots ⟨m, [firstSpace]⟩ = [dramStart] := congrArg (· :: []) firstSpace_root
  exact ⟨m₁, m, made, urp₁, supplied, ⟨frame, ran⟩, ⟨done.mapping, left, roots ▸ roles₂⟩, pages, by omega⟩

theorem fourFrames_owned : (freshFrames 4).Owned (frameList 4) :=
  freshFrames_owned (by decide) (by decide +kernel)

/-- The first frame as the root table of a space. -/
theorem fourFrames_init :
    ∃ m, (freshFrames 4).serve .initUserspace = some ⟨m, [4194304]⟩ ∧ m.mapping = 0 ∧ m.urp = 4194304 ∧
      m.frames = taken (freshFrames 4).mmu.frames 0x80000000 := by
  have got : Frames.alloc (freshFrames 4).mmu.frames =
      some (0x80000000, taken (freshFrames 4).mmu.frames 0x80000000) := rfl
  obtain ⟨m, ran, frames, mapping, urp, -⟩ := initUserspace_some rfl got (by decide)
  exact ⟨m, UserSpaces.serve_initUserspace_some ran, mapping, urp, frames⟩

/-- The space is current, and there are frames for a page in it. -/
theorem fourFrames_space : ∃ m, (freshFrames 4).serve .initUserspace = some ⟨m, [4194304]⟩ ∧
    UserSpaces.Owned (frameList 4) ⟨m, [4194304]⟩ ∧ m.urp ∈ [4194304] ∧ Supplied m m.urp 0x1000 := by
  obtain ⟨m, served, mapping, urp, frames⟩ := fourFrames_init
  obtain ⟨w, served', owned⟩ := UserSpaces.serve_initUserspace fourFrames_owned
  obtain rfl := Option.some.inj (served'.symm.trans served)
  have same : m.mem = (taken (freshFrames 4).mmu.frames 0x80000000).mem := congrArg Frames.mem frames
  have count : m.memLayout.freeFrames = 3 := congrArg Frames.freeFrames frames
  refine ⟨m, served, owned, urp ▸ List.mem_cons_self, ?_⟩
  unfold Supplied
  rw [urp, same, count]
  exact Nat.le_of_eq (wanted_zero (taken_zero (freshFrames 4).mmu.frames 0x80000000) 0x1000)

theorem owned_run_page : ∃ v, UserSpaces.Run UserSpaces.Allowed (freshFrames 4)
      [.initUserspace, .allocAt 0x1000 false] v ∧
    v.Owned (frameList 4) := by
  obtain ⟨m, served, owned, current, supplied⟩ := fourFrames_space
  obtain ⟨v, next, -⟩ := @UserSpaces.serve_allocAt _ _ owned _ false current supplied
  have run : UserSpaces.Run UserSpaces.Allowed (freshFrames 4)
      [.initUserspace, .allocAt 0x1000 false] v :=
    ⟨⟨trivial, fun _ _ wrong => nomatch wrong⟩, _, served, ⟨supplied, fun _ _ _ => current⟩, _, next, rfl⟩
  exact ⟨v, run, (UserSpaces.owned_run fourFrames_owned run).1⟩

def givenBack : Frames :=
  { taken (freshFrames 4).mmu.frames 0x80000000 with
    mem := (taken (freshFrames 4).mmu.frames 0x80000000).mem.store32 0x80000000 0x80001000
    freeFrame := 0x80000000 }

theorem forM_stays {f : Nat → Work Unit} {s : Frames} {indices : List Nat}
    (stays : ∀ i ∈ indices, f i s = some ((), s)) : indices.forM f s = some ((), s) := by
  induction indices with
  | nil => rfl
  | cons i rest ih =>
      have later := ih fun j member => stays j (List.mem_cons_of_mem _ member)
      exact (bind_ran (stays i List.mem_cons_self)).trans later

theorem givenBack_eq : (do
      Frames.clear 3 0x80000000
      Frames.free 0x80000000 : Work Unit) (taken (freshFrames 4).mmu.frames 0x80000000) =
    some ((), givenBack) := by
  have cleared : Frames.clear 3 0x80000000 (taken (freshFrames 4).mmu.frames 0x80000000) =
      some ((), taken (freshFrames 4).mmu.frames 0x80000000) := by
    refine forM_stays fun i member => clearEntry_none rfl (List.mem_range.mp member) ?_ _
    exact child_zero (taken_zero _ _) (List.mem_range.mp member)
  rw [bind_ran cleared]
  have gives : Frames.free 0x80000000 (taken (freshFrames 4).mmu.frames 0x80000000) = some ((), givenBack) := rfl
  exact gives

def selfLinked : Frames :=
  { taken givenBack 0x80000000 with
    mem := (taken givenBack 0x80000000).mem.store32 0x80000000
      (linked 3 ((taken givenBack 0x80000000).mem.load32 0x80000000) 0x80000000) }

theorem selfLinked_eq : tableAt 3 0x80000000 0 givenBack = some (0x80000000, selfLinked) := by
  have leads : child givenBack.mem 3 0x80000000 0 = none := by decide +kernel
  have got : Frames.alloc givenBack = some (0x80000000, taken givenBack 0x80000000) := rfl
  exact tableAt_none rfl (by decide) leads got

theorem selfLinked_again : tableAt 2 0x80000000 0 selfLinked = some (0x80000000, selfLinked) :=
  tableAt_some rfl (by decide) (by decide +kernel)

/-- What putting a page into it leaves of the free list. -/
theorem stale_place : ∃ s, Frames.allocAt 0x80000000 0 false false givenBack = some (0x80001000, s) ∧
    Chain (fun f => s.mem.load32 f) s.freeFrame [0x80002000, 0x80003000] := by
  have head : selfLinked.freeFrame = 0x80001000 := by decide +kernel
  have page : child selfLinked.mem 1 0x80000000 0 = none := by decide +kernel
  have got : Frames.alloc selfLinked = some (0x80001000, taken selfLinked 0x80001000) := by
    unfold Frames.alloc taken
    rw [head]
    rfl
  have entry := @modifyEntry_eq 0x80000000 0 rfl (by decide)
    (fun w => placed w 0x80001000 false false) (taken selfLinked 0x80001000)
  refine ⟨_, (bind_ran selfLinked_eq).trans ((bind_ran selfLinked_again).trans
    ((bind_ran (replacePage_none rfl (by decide) page)).trans ((bind_ran got).trans (bind_ran entry)))),
    ?_⟩
  decide +kernel

/-- A page is put below a root table that has been given back: two frames have no role then. -/
theorem stale_root_loses_frames : ¬ ∀ frames u requests v, UserSpaces.Owned frames u →
    UserSpaces.Run UserSpaces.Named u requests v → UserSpaces.Owned frames v := by
  intro keeps
  obtain ⟨m, served, mapping, urp, frames⟩ := fourFrames_init
  obtain ⟨s, placed, left⟩ := stale_place
  obtain ⟨m₁, freed, done₁⟩ := run_of_simulates
    (fun _ => freeUserspace_simulates (by decide) 4194304) mapping
    (frames ▸ givenBack_eq)
  obtain ⟨m₂, filled, done₂⟩ := run_of_simulates
    (fun _ => allocBelow_simulates (by decide) 4194304 0 false false) done₁.mapping
    (done₁.frames ▸ placed)
  have supplied : Supplied m₁ m₁.urp 0 := by
    have mem : m₁.mem = givenBack.mem := congrArg Frames.mem done₁.frames
    have count : m₁.memLayout.freeFrames = 3 := congrArg Frames.freeFrames done₁.frames
    have root : m₁.urp = 4194304 := done₁.urp.trans urp
    unfold Supplied
    rw [mem, count, root]
    decide +kernel
  have gives : UserSpaces.serve ⟨m, [4194304]⟩ (.freeUserspace 4194304) = some ⟨m₁, []⟩ := by
    show (Mmu.freeUserspace 4194304 m).map _ = _
    rw [freed]
    rfl
  have fills : UserSpaces.serve ⟨m₁, []⟩ (.allocAt 0 false) = some ⟨m₂, []⟩ := by
    have root : m₁.rootPointer false = 4194304 := done₁.urp.trans urp
    show (Mmu.allocAt 0 false false m₁).map _ = _
    rw [allocAt_eq, root, filled]
    rfl
  obtain ⟨-, chain, roles⟩ := keeps _ _ [.initUserspace, .freeUserspace 4194304, .allocAt 0 false] _
    fourFrames_owned ⟨trivial, _, served, List.mem_cons_self, _, gives, supplied, _, fills, rfl⟩
  have linked := roles.pool.linked
  rw [done₂.frames] at linked
  have split := roles.split.length_eq
  rw [linked.unique left] at split
  cases split

end TrollOS.Mmu
