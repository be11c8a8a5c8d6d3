import TrollOS.Romfs.Directory
import TrollOS.Vfs.Accounting

/-!
# Lookups that end

`fs_romfs_stat` follows the next words of the image and counts nothing: on a chain that
comes back to itself it goes round for ever.  It ends wherever the chain does, or at a
node with the name, and so does every resolution that meets only such directories.
-/

namespace TrollOS.Romfs

open TrollOS.Lib Vfs

namespace Image

/-- Where a search for a name goes on behind a node: nowhere behind one with the name. -/
def after (image : Image) (fname : List UInt8) (inode : Nat) : Nat :=
  if image.name inode = fname ∧ nodeOffset inode + 16 + fname.length < image.len then 0
  else image.next inode

/-- A search for the name in the directory comes to an end inside the image. -/
def Ends (image : Image) (root inode : Nat) (fname : List UInt8) : Prop :=
  ∃ nodes, Chain (image.after fname) (image.first root inode) nodes ∧ ∀ node ∈ nodes, image.Inside node

/-- The directory `inode` has a last node, and all of them are inside the image. -/
def Listed (image : Image) (root inode : Nat) (nodes : List Nat) : Prop :=
  Chain image.next (image.first root inode) nodes ∧ ∀ node ∈ nodes, image.Inside node

/-- The directories under the root. -/
inductive Reached (image : Image) (root : Nat) : Nat → Prop where
  | root : Reached image root root
  | node {inode node : Nat} {nodes : List Nat} : Reached image root inode →
      image.Listed root inode nodes → node ∈ nodes → typeOf (image.node node) = 1 →
        Reached image root node

/-- Every directory under the root has a last node. -/
structure Orderly (image : Image) (root : Nat) : Prop where
  inside : image.Inside root
  listed : ∀ inode, image.Reached root inode → ∃ nodes, image.Listed root inode nodes

end Image

section Search

variable {image : Image} {w : World Instances} {inst head root inode : Nat} {nodes : List Nat}
  {fname : List UInt8}

theorem after_met
    (met : image.name inode = fname ∧ nodeOffset inode + 16 + fname.length < image.len) :
    image.after fname inode = 0 := by
  unfold Image.after
  rw [if_pos met]

theorem after_on
    (on : ¬ (image.name inode = fname ∧ nodeOffset inode + 16 + fname.length < image.len)) :
    image.after fname inode = image.next inode := by
  unfold Image.after
  rw [if_neg on]

/-- A buffer with a node that has the name compares equal. -/
theorem Shows.compared {buff : ByteMem} (shows' : Shows image inode (16 + nameMax + 1) buff)
    (named : image.name inode = fname) (inside : nodeOffset inode + 16 + fname.length < image.len) :
    strncmpEq fname buff 16 nameMax = true := by
  have bounded : fname.length ≤ nameMax := by
    rw [← named]
    exact cString_length_le _ _ _
  have same : cString buff 16 nameMax = image.name inode := by
    refine cString_congr fun i within => (shows' (16 + i) ?_ ?_).symm
    · have most := cString_length_le (image.node inode) 16 nameMax
      omega
    · have here : i ≤ fname.length := by
        rw [← named]
        exact within
      omega
  unfold strncmpEq
  rw [same, named, List.take_of_length_le bounded, decide_eq_true rfl]

/-- A search that comes to an end finds a node of its way, or nothing. -/
theorem findName_ends (mounted : Mounted w inst image) (chain : Chain (image.after fname) head nodes)
    (inside : ∀ node ∈ nodes, image.Inside node) {rounds : Nat} (enough : nodes.length ≤ rounds)
    (buff : ByteMem) :
    (∃ node ∈ nodes, findName w (w.instances inst).device fname rounds head buff = .value node) ∨
      findName w (w.instances inst).device fname rounds head buff = .error (-enoent) := by
  induction nodes generalizing head rounds buff with
  | nil =>
      obtain rfl : head = 0 := chain
      refine Or.inr ?_
      unfold findName
      rw [if_pos rfl]
  | cons node rest ih =>
      obtain ⟨rfl, nonzero, later⟩ := chain
      have here := inside head List.mem_cons_self
      obtain ⟨read, looked, shows'⟩ := readUnaligned_shows mounted here
        (show 16 + nameMax + 1 ≠ 0 by decide) buff
      unfold findName
      rw [if_neg nonzero, looked, Outcome.andThen_value]
      by_cases equal : strncmpEq fname read 16 nameMax = true
      · rw [if_pos equal]
        exact Or.inl ⟨head, List.mem_cons_self, rfl⟩
      · rw [if_neg equal]
        rw [after_on fun both => equal (shows'.compared both.1 both.2)] at later
        cases rounds with
        | zero => exact absurd enough (Nat.not_succ_le_zero _)
        | succ rounds =>
            dsimp only
            rw [shows'.makeInode here (by decide) (by decide)]
            refine (ih later (fun other member => inside other (List.mem_cons_of_mem _ member))
              (Nat.le_of_succ_le_succ enough) read).imp_left ?_
            rintro ⟨other, member, found⟩
            exact ⟨other, List.mem_cons_of_mem _ member, found⟩

/-- A chain that ends lets every search end. -/
theorem searched_of_chain (fname : List UInt8) (chain : Chain image.next head nodes) :
    ∃ front, Chain (image.after fname) head front ∧ front ⊆ nodes := by
  induction nodes generalizing head with
  | nil =>
      obtain rfl : head = 0 := chain
      exact ⟨[], rfl, fun _ member => member⟩
  | cons node rest ih =>
      obtain ⟨rfl, nonzero, later⟩ := chain
      by_cases met : image.name head = fname ∧ nodeOffset head + 16 + fname.length < image.len
      · refine ⟨[head], ⟨rfl, nonzero, after_met met⟩, fun node member => ?_⟩
        rw [List.mem_singleton.mp member]
        exact List.mem_cons_self
      · obtain ⟨front, searched, within⟩ := ih later
        refine ⟨head :: front, ⟨rfl, nonzero, ?_⟩, List.cons_subset_cons head within⟩
        rw [after_on met]
        exact searched

theorem Image.Listed.ends (listed : image.Listed root inode nodes) (fname : List UInt8) :
    ∃ front, Chain (image.after fname) (image.first root inode) front ∧
      (∀ node ∈ front, image.Inside node) ∧ front ⊆ nodes := by
  obtain ⟨front, searched, within⟩ := searched_of_chain fname listed.1
  exact ⟨front, searched, fun node member => listed.2 node (within member), within⟩

theorem after_small (image : Image) (fname : List UInt8) (inode : Nat) :
    image.after fname inode < 4294967296 := by
  unfold Image.after
  split
  · exact (by decide)
  · exact makeInode_lt _ 0

theorem searched_small (chain : Chain (image.after fname) head nodes) (small : head < 4294967296) :
    ∀ node ∈ nodes, node < 4294967296 := by
  induction nodes generalizing head with
  | nil => exact fun node member => nomatch member
  | cons first rest ih =>
      obtain ⟨rfl, -, later⟩ := chain
      intro node member
      rcases List.mem_cons.mp member with rfl | inRest
      · exact small
      · exact ih later (after_small image fname head) node inRest

/-- What a lookup in a directory comes to when the search ends. -/
theorem stat_cases (mounted : Mounted w inst image) (stale : ByteMem)
    (inside : image.Inside (absolute (w.instances inst).rootInode inode))
    (chain : Chain (image.after fname)
      (image.first (w.instances inst).rootInode (absolute (w.instances inst).rootInode inode)) nodes)
    (within : ∀ node ∈ nodes, image.Inside node) :
    (∃ errno, stat stale w inst inode fname = .error errno) ∨
      ∃ node s, stat stale w inst inode fname = .value s ∧
        (node = absolute (w.instances inst).rootInode inode ∨ node ∈ nodes) ∧ node < 4294967296 ∧
          s.ino = relative (w.instances inst).rootInode node ∧ s.mode = image.mode node := by
  have enough : 16 ≤ 16 + nameMax + 1 := by decide
  obtain ⟨buff, read, shows'⟩ :=
    readUnaligned_shows mounted inside (show 16 + nameMax + 1 ≠ 0 by decide) stale
  have small := searched_small chain (first_small image (u32_lt _))
  unfold stat
  dsimp only
  rw [read, Outcome.andThen_value]
  by_cases empty : fname = []
  · rw [if_pos empty]
    obtain ⟨s, answer, ino, mode⟩ := statInode_inside mounted stale inside (u32_lt _)
    exact Or.inr ⟨_, s, answer, Or.inl rfl, u32_lt _, ino, mode⟩
  · rw [if_neg empty, firstInode_shows inside shows' enough]
    split
    · rw [Outcome.andThen_value]
      rcases findName_ends mounted chain within (chain.length_le small) buff with
        ⟨node, member, found⟩ | missing
      · rw [found, Outcome.andThen_value]
        obtain ⟨s, answer, ino, mode⟩ := statInode_inside mounted stale (within node member) (small node member)
        exact Or.inr ⟨node, s, answer, Or.inr member, small node member, ino, mode⟩
      · rw [missing]
        exact Or.inl ⟨_, rfl⟩
    · exact Or.inl ⟨_, rfl⟩

theorem readUnaligned_value (mounted : Mounted w inst image) (buff : ByteMem) (n : Nat) (offset : Int) :
    ∃ after, readUnaligned w (w.instances inst).device buff n offset = .value after := by
  obtain ⟨d, found, read, write, blksize, rfl, -⟩ := mounted.device
  unfold readUnaligned
  split
  · exact ⟨_, rfl⟩
  · split
    · exact ⟨_, rfl⟩
    · rw [found]
      exact ⟨_, rfl⟩

theorem statInode_value (mounted : Mounted w inst image) (stale : ByteMem) (inode : Nat) :
    ∃ s, statInode stale w inst inode = .value s := by
  obtain ⟨after, read⟩ := readUnaligned_value mounted stale 16
    (nodeOffset (absolute (w.instances inst).rootInode inode))
  obtain ⟨d, found, serve, write, blksize, rfl, -⟩ := mounted.device
  unfold statInode
  dsimp only
  rw [read, Outcome.andThen_value, found]
  exact ⟨_, rfl⟩

/-- Only the type of a directory makes the mode one. -/
theorem type_of_isDir {s : Stat} (mode : s.mode = image.mode inode) (dir : s.isDir = true) :
    typeOf (image.node inode) = 1 := by
  by_contra other
  refine absurd dir (Bool.not_eq_true _ ▸ ?_)
  unfold Stat.isDir
  rw [mode]
  unfold Image.mode byteToMode
  unfold typeOf at other
  rw [if_neg other]
  dsimp only
  split_ifs <;> decide

end Search

/-! ## Under the tables -/

/-- A mount of the driver on an orderly image. -/
structure OrderlyAt (v : Vfs Instances) (i : Nat) (stale : ByteMem) (image : Image) : Prop where
  stat : (v.fsType (v.mount i).mountedFs).stat = stat stale
  statInode : (v.fsType (v.mount i).mountedFs).statInode = statInode stale
  mounted : Mounted v.world (v.mount i).mountedInstance image
  orderly : image.Orderly (v.world.instances (v.mount i).mountedInstance).rootInode
  start : (v.mount i).mountedIno = 0

def OrderlyTables (v : Vfs Instances) : Prop := ∀ i, v.Live i → ∃ stale image, OrderlyAt v i stale image

/-- A place the resolution can be at: a directory under the root of its image. -/
def AtDirectory (v : Vfs Instances) (at' : Place) : Prop :=
  v.Live at'.mount ∧ ∃ stale image, OrderlyAt v at'.mount stale image ∧
    image.Reached (v.world.instances (v.mount at'.mount).mountedInstance).rootInode
      (absolute (v.world.instances (v.mount at'.mount).mountedInstance).rootInode at'.dir)

theorem Image.Reached.inside {image : Image} {root inode : Nat} (orderly : image.Orderly root)
    (reached : image.Reached root inode) : image.Inside inode := by
  cases reached with
  | root => exact orderly.inside
  | node _ listed member _ => exact listed.2 _ member

section Tables

variable {v : Vfs Instances} {at' : Place} {name : List UInt8}

/-- A lookup ends, and what it finds can be entered if it is a directory. -/
theorem stat_ends (here : AtDirectory v at') :
    (∃ errno, v.stat at' name = .error errno) ∨
      ∃ s, v.stat at' name = .value s ∧ (s.isDir = true → AtDirectory v ⟨at'.mount, s.ino⟩) := by
  obtain ⟨live, stale, image, orderly, reached⟩ := here
  obtain ⟨nodes, listed⟩ := orderly.orderly.listed _ reached
  obtain ⟨front, searched, within, among⟩ := listed.ends name
  have inside := reached.inside orderly.orderly
  unfold Vfs.stat
  rw [orderly.stat]
  rcases stat_cases orderly.mounted stale inside searched within with
    failed | ⟨node, s, answer, node', small, ino, mode⟩
  · exact Or.inl failed
  · refine Or.inr ⟨s, answer, fun dir => ⟨live, stale, image, orderly, ?_⟩⟩
    dsimp only
    rw [ino, absolute_relative orderly.mounted.root small]
    rcases node' with rfl | member
    · exact reached
    · exact .node reached listed (among member) (type_of_isDir mode dir)

theorem mounted_atDirectory (tables : OrderlyTables v) {i : Nat} (live : v.Live i) :
    AtDirectory v ⟨i, 0⟩ := by
  obtain ⟨stale, image, orderly⟩ := tables i live
  have root := orderly.mounted.root
  refine ⟨live, stale, image, orderly, ?_⟩
  dsimp only
  unfold absolute
  rw [Nat.zero_add, u32_eq root]
  exact .root

/-- One round of the resolution ends. -/
theorem enter_ends (tables : OrderlyTables v) (here : AtDirectory v at') :
    (∃ errno, v.enter at' name = .error errno) ∨
      ∃ place, v.enter at' name = .value place ∧ AtDirectory v place := by
  unfold enter
  rcases @stat_ends v at' name here with ⟨errno, failed⟩ | ⟨s, found, inner⟩
  · rw [failed]
    exact Or.inl ⟨errno, rfl⟩
  · rw [found, Outcome.andThen_value]
    cases crossed : v.isMountpoint s.dev s.ino with
    | some mp =>
        have live : v.Live mp := isMountpoint_live crossed
        obtain ⟨stale, image, orderly⟩ := tables mp live
        refine Or.inr ⟨_, rfl, ?_⟩
        rw [cross_mounted crossed]
        unfold rootPlace
        rw [orderly.start]
        exact mounted_atDirectory tables live
    | none =>
        rw [Option.isSome_none, Bool.false_or]
        split
        · rename_i dir
          rw [cross_plain crossed]
          exact Or.inr ⟨_, rfl, inner dir⟩
        · exact Or.inl ⟨_, rfl⟩

theorem walk_ends (tables : OrderlyTables v) (names : List (List UInt8)) (here : AtDirectory v at') :
    v.walk at' names ≠ .hang := by
  induction names generalizing at' with
  | nil =>
      intro same
      cases same
  | cons name names ih =>
      cases names with
      | nil =>
          unfold walk
          rcases @stat_ends v at' name here with ⟨errno, failed⟩ | ⟨s, found, -⟩
          · rw [failed]
            intro same
            cases same
          · rw [found]
            intro same
            cases same
      | cons next names =>
          unfold walk
          rcases @enter_ends v at' name tables here with ⟨errno, failed⟩ | ⟨place, entered, there⟩
          · rw [failed]
            intro same
            cases same
          · rw [entered, Outcome.andThen_value]
            exact ih there

theorem resolvIno_ends (tables : OrderlyTables v) (path : List UInt8) : v.resolvIno path 0 ≠ .hang := by
  cases path with
  | nil => exact fun same => nomatch same
  | cons first tail =>
      by_cases isSlash : first = slash
      · subst isSlash
        cases root : v.rootMount with
        | none =>
            unfold resolvIno
            rw [root]
            exact fun same => nomatch same
        | some root' =>
            rw [resolvIno_eq v root]
            exact walk_ends tables _
              (mounted_atDirectory tables (@isMountpoint_live _ v allOnes allOnes root' root))
      · unfold resolvIno
        rw [if_neg (by decide)]
        dsimp only
        rw [if_pos isSlash]
        exact fun same => nomatch same

theorem vfsStat_ends (tables : OrderlyTables v) (path : List UInt8) : v.vfsStat path ≠ .hang := by
  unfold vfsStat
  cases resolved : v.resolvIno path 0 with
  | error errno => exact fun same => nomatch same
  | hang => exact absurd resolved (resolvIno_ends tables path)
  | value place =>
      obtain ⟨stale, image, orderly⟩ := tables place.mount (resolvIno_live resolved)
      obtain ⟨s, answer⟩ := statInode_value orderly.mounted stale place.dir
      rw [Outcome.andThen_value, orderly.statInode, answer]
      exact fun same => nomatch same

theorem vfsOpen_ends (tables : OrderlyTables v) (path : List UInt8) : (v.vfsOpen path).1 ≠ .hang := by
  unfold vfsOpen
  cases found : v.vfsStat path with
  | error errno => exact fun same => nomatch same
  | hang => exact absurd found (vfsStat_ends tables path)
  | value result =>
      dsimp only
      cases v.allocFile with
      | none => exact fun same => nomatch same
      | some fd => exact fun same => nomatch same

end Tables

/-- A lookup ends wherever its search comes to an end in the image, and `vfs_stat` and
`vfs_open` end for every path when every directory of the mounted images has a last node. -/
theorem lookups_end (stale : ByteMem) :
    (∀ (w : World Instances) (inst : Nat) (image : Image) (inode : Nat) (fname : List UInt8),
      Mounted w inst image → image.Inside (absolute (w.instances inst).rootInode inode) →
        image.Ends (w.instances inst).rootInode (absolute (w.instances inst).rootInode inode) fname →
          stat stale w inst inode fname ≠ .hang) ∧
      ∀ v : Vfs Instances, OrderlyTables v →
        ∀ path, v.vfsStat path ≠ .hang ∧ (v.vfsOpen path).1 ≠ .hang := by
  constructor
  · intro w inst image inode fname mounted inside ends
    obtain ⟨nodes, chain, within⟩ := ends
    rcases stat_cases mounted stale inside chain within with ⟨errno, failed⟩ | ⟨node, s, answer, -⟩
    · rw [failed]
      exact fun same => nomatch same
    · rw [answer]
      exact fun same => nomatch same
  · intro v tables path
    exact ⟨vfsStat_ends tables path, vfsOpen_ends tables path⟩

theorem smallImage_listed : smallImage.Listed 2 2 [2, 4] :=
  ⟨smallImage_directory.chain, fun node member => (smallImage_entry node member).header⟩

theorem smallImage_reached {inode : Nat} (reached : smallImage.Reached 2 inode) : inode = 2 := by
  induction reached with
  | root => rfl
  | @node inode node nodes _ listed member type ih =>
      subst ih
      rw [listed.1.unique smallImage_listed.1] at member
      rcases List.mem_cons.mp member with rfl | rest
      · rfl
      · rw [List.mem_singleton.mp rest] at type
        exact absurd type (by decide +kernel)

theorem smallTables_orderly (v : Vfs Instances)
    (tables : v.world = smallWorld ∧ ∀ i, v.fsType i = fsType (fun _ => 0) ∧
      (v.mount i).mountedInstance = 0 ∧ (v.mount i).mountedIno = 0) : OrderlyTables v := by
  intro i _
  obtain ⟨world, mounts⟩ := tables
  have type := (mounts (v.mount i).mountedFs).1
  refine ⟨fun _ => 0, smallImage, by rw [type]; rfl, by rw [type]; rfl, ?_, ?_, (mounts i).2.2⟩
  · rw [world, (mounts i).2.1]
    exact smallWorld_mounted
  · rw [world, (mounts i).2.1]
    refine ⟨smallImage_listed.2 2 List.mem_cons_self, fun inode reached => ?_⟩
    rw [smallImage_reached reached]
    exact ⟨[2, 4], smallImage_listed⟩

theorem lookups_end_small :
    stat (fun _ => 255) smallWorld 0 0 [98] ≠ .hang ∧
      (Vfs.vfsOpen ⟨fun _ => fsType fun _ => 0, fun _ => ⟨true, 0, allOnes, allOnes, 0, 0, 0, 0⟩,
        fun _ => ⟨false, false, false, false, false, false, 0, 0, 0, 0, 0⟩, smallWorld⟩
          [slash, 98]).1 ≠ .hang := by
  obtain ⟨lookup, resolution⟩ := lookups_end fun _ => 255
  obtain ⟨front, searched, within, -⟩ := smallImage_listed.ends [98]
  exact ⟨lookup smallWorld 0 smallImage 0 [98] smallWorld_mounted smallImage_directory.inside
      ⟨front, searched, within⟩,
    (resolution _ (smallTables_orderly _ ⟨rfl, fun _ => ⟨rfl, rfl, rfl⟩⟩) [slash, 98]).2⟩

/-! ## A node that leads to itself -/

theorem findName_loop {image : Image} {w : World Instances} {inst node : Nat} {fname : List UInt8}
    (mounted : Mounted w inst image) (entry : image.Entry node) (nonzero : node ≠ 0)
    (loops : image.next node = node) (other : fname.take nameMax ≠ image.name node) (rounds : Nat)
    (buff : ByteMem) : findName w (w.instances inst).device fname rounds node buff = .hang := by
  induction rounds generalizing buff with
  | zero =>
      obtain ⟨after, read, -, -, name⟩ := read_entry mounted entry buff
      unfold findName strncmpEq
      rw [if_neg nonzero, read, Outcome.andThen_value, name, if_neg (by rw [decide_eq_true_iff]; exact other)]
  | succ rounds ih =>
      obtain ⟨after, read, -, next, name⟩ := read_entry mounted entry buff
      unfold findName strncmpEq
      rw [if_neg nonzero, read, Outcome.andThen_value, name, if_neg (by rw [decide_eq_true_iff]; exact other)]
      dsimp only
      rw [next, loops]
      exact ih after

/-- The root directory's only node is its own successor. -/
def loopImage : Image where
  len := 96
  bytes := fun i => if i = 35 then 0x29 else if i = 48 then 46 else 0

def loopWorld : World Instances := ⟨fun _ => some (memblk loopImage), fun _ => ⟨true, 0, 2⟩⟩

theorem loopWorld_mounted : Mounted loopWorld 0 loopImage :=
  ⟨⟨_, rfl, memblk_serves loopImage⟩, by decide⟩

/-- A lookup of any other name than `.` never returns. -/
theorem lookup_loops : Mounted loopWorld 0 loopImage ∧ loopImage.Inside 2 ∧
    stat (fun _ => 0) loopWorld 0 0 [98] = .hang := by
  have entry : loopImage.Entry 2 := ⟨by decide +kernel, by decide +kernel, by decide +kernel⟩
  refine ⟨loopWorld_mounted, entry.header, ?_⟩
  obtain ⟨buff, read, shows'⟩ := readUnaligned_shows loopWorld_mounted entry.header
    (show 16 + nameMax + 1 ≠ 0 by decide) fun _ => 0
  have found := @findName_loop _ _ _ _ [98] loopWorld_mounted entry (by decide) (by decide +kernel)
    (by decide +kernel) 4294967296 buff
  have start : absolute (loopWorld.instances 0).rootInode 0 = 2 := by decide
  have root : (loopWorld.instances 0).rootInode = 2 := rfl
  have first : loopImage.first 2 2 = 2 := by
    unfold Image.first
    rw [if_pos rfl]
  unfold stat
  dsimp only
  rw [start, read, Outcome.andThen_value, if_neg (List.cons_ne_nil _ _), root,
    firstInode_shows entry.header shows' (by decide), if_pos (Or.inl rfl), first, Outcome.andThen_value, found]
  rfl

end TrollOS.Romfs
