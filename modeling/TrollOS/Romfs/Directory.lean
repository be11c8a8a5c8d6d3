import TrollOS.Lib.Chain
import TrollOS.Romfs.Model

/-!
# Reading and searching a directory

`fs_romfs_read_directory` counts along the chain of a directory and `fs_romfs_stat`
searches it for a name.  They meet the same nodes.
-/

namespace TrollOS.Romfs

open TrollOS.Lib Vfs

structure Image where
  len : Nat
  bytes : ByteMem

namespace Image

def read (image : Image) (pos count : Nat) : List UInt8 :=
  (List.range (min count (image.len - pos))).map fun i => image.bytes (pos + i)

def node (image : Image) (inode : Nat) : ByteMem := fun i => image.bytes (nodeOffset inode + i)

def next (image : Image) (inode : Nat) : Nat := makeInode (image.node inode) 0

def name (image : Image) (inode : Nat) : List UInt8 := cString (image.node inode) 16 nameMax

def mode (image : Image) (inode : Nat) : Nat := byteToMode (image.node inode 3)

def first (image : Image) (root inode : Nat) : Nat :=
  if inode = root then inode else makeInode (image.node inode) 4

/-- The header of a node is part of the image. -/
def Inside (image : Image) (inode : Nat) : Prop := nodeOffset inode + 16 ≤ image.len

/-- A node of a directory: its name ends inside the image. -/
structure Entry (image : Image) (inode : Nat) : Prop where
  named : image.name inode ≠ []
  short : (image.name inode).length < nameMax - 1
  inside : nodeOffset inode + 16 + (image.name inode).length < image.len

/-- The directory `inode`, counted from the root, has these nodes. -/
structure Directory (image : Image) (root inode : Nat) (nodes : List Nat) : Prop where
  inside : image.Inside (absolute root inode)
  type : absolute root inode = root ∨ typeOf (image.node (absolute root inode)) = 1
  chain : Chain image.next (image.first root (absolute root inode)) nodes
  entry : ∀ node ∈ nodes, image.Entry node
  distinct : (nodes.map image.name).Nodup

/-- `inode` is no directory. -/
structure NonDirectory (image : Image) (root inode : Nat) : Prop where
  inside : image.Inside (absolute root inode)
  other : absolute root inode ≠ root
  type : typeOf (image.node (absolute root inode)) ≠ 1

def dirent (image : Image) (root inode : Nat) : Dirent :=
  ⟨relative root inode, image.mode inode, image.name inode⟩

end Image

/-- A block device that reads what the image has. -/
def Serves (device : Device) (image : Image) : Prop :=
  ∃ read write blksize, device = .block (some read) write blksize ∧
    ∀ dev pos count : Nat, pos ≤ image.len → (read dev pos count).2 = image.read pos count

/-- An instance of the driver works on an image. -/
structure Mounted (w : World Instances) (inst : Nat) (image : Image) : Prop where
  device : ∃ d, w.deviceLookup (w.instances inst).device = some d ∧ Serves d image
  root : (w.instances inst).rootInode < 4294967296

def memblkRead (image : Image) (_ : Nat) (pos : Int) (count : Nat) : Int × List UInt8 :=
  let answer (count : Nat) : Int × List UInt8 :=
    if pos < 0 then (-eio, []) else (count, image.read pos.toNat count)
  if (image.len : Int) < pos + count then
    if (image.len : Int) < pos then (-eio, []) else answer ((image.len : Int) - pos).toNat
  else answer count

def memblk (image : Image) : Device := .block (some (memblkRead image)) none fun _ => 512

theorem memblk_serves (image : Image) : Serves (memblk image) image := by
  refine ⟨memblkRead image, none, _, rfl, fun dev pos count within => ?_⟩
  have positive : ¬ (pos : Int) < 0 := by omega
  unfold memblkRead
  dsimp only
  by_cases cut : (image.len : Int) < pos + count
  · have bounded : min ((image.len : Int) - pos).toNat (image.len - pos) = min count (image.len - pos) := by
      omega
    rw [if_pos cut, if_neg (by omega), if_neg positive]
    unfold Image.read
    rw [Int.toNat_natCast, bounded]
  · rw [if_neg cut, if_neg positive, Int.toNat_natCast]

/-! ## What a buffer shows -/

/-- A buffer shows the first `n` bytes of a node, as far as the image has them. -/
def Shows (image : Image) (inode n : Nat) (buff : ByteMem) : Prop :=
  ∀ i, i < n → nodeOffset inode + i < image.len → buff i = image.node inode i

section Shows

variable {image : Image} {inode n p : Nat} {buff : ByteMem}

theorem fill_read {pos count i : Nat} (inCount : i < count) (inImage : pos + i < image.len)
    (buff : ByteMem) : fill buff (image.read pos count) i = image.bytes (pos + i) := by
  unfold fill Image.read
  rw [List.getD_eq_getElem?_getD, List.getElem?_map, List.getElem?_range (by omega)]
  rfl

/-- A read into a buffer, as far as the image goes. -/
theorem readUnaligned_device {w : World Instances} {dev offset : Nat}
    (device : ∃ d, w.deviceLookup dev = some d ∧ Serves d image) (within : offset ≤ image.len) (positive : n ≠ 0)
    (buff : ByteMem) :
    ∃ after, readUnaligned w dev buff n offset = .value after ∧
      ∀ i, i < n → offset + i < image.len → after i = image.bytes (offset + i) := by
  obtain ⟨d, found, read, write, blksize, rfl, serves⟩ := device
  refine ⟨fill buff (image.read offset n), ?_, fun i small inImage => fill_read small inImage buff⟩
  unfold readUnaligned
  rw [if_neg (by omega), if_neg positive, found, ← serves _ _ _ within]

theorem readUnaligned_at {w : World Instances} {inst offset : Nat} (mounted : Mounted w inst image)
    (within : offset ≤ image.len) (positive : n ≠ 0) (buff : ByteMem) :
    ∃ after, readUnaligned w (w.instances inst).device buff n offset = .value after ∧
      ∀ i, i < n → offset + i < image.len → after i = image.bytes (offset + i) :=
  readUnaligned_device mounted.device within positive buff

/-- A read of a node into a buffer. -/
theorem readUnaligned_shows {w : World Instances} {inst : Nat} (mounted : Mounted w inst image)
    (inside : image.Inside inode) (positive : n ≠ 0) (buff : ByteMem) :
    ∃ after, readUnaligned w (w.instances inst).device buff n (nodeOffset inode) = .value after ∧
      Shows image inode n after :=
  readUnaligned_at mounted (Nat.le_trans (Nat.le_add_right _ 16) inside) positive buff

theorem Shows.header (shows' : Shows image inode n buff) (inside : image.Inside inode) {i : Nat}
    (small : i < 16) (enough : 16 ≤ n) : buff i = image.node inode i := by
  refine shows' i (Nat.lt_of_lt_of_le small enough) ?_
  unfold Image.Inside at inside
  omega

theorem Shows.makeInt (shows' : Shows image inode n buff) (inside : image.Inside inode)
    (enough : 16 ≤ n) (word : p + 4 ≤ 16) : makeInt buff p = makeInt (image.node inode) p := by
  have same : buff.load32 p = (image.node inode).load32 p :=
    ByteMem.load32_congr fun x _ below => shows'.header inside (by omega) enough
  unfold Romfs.makeInt
  rw [same]

theorem Shows.makeInode (shows' : Shows image inode n buff) (inside : image.Inside inode)
    (enough : 16 ≤ n) (word : p + 4 ≤ 16) : makeInode buff p = makeInode (image.node inode) p := by
  unfold Romfs.makeInode
  rw [shows'.makeInt inside enough word]

theorem Shows.name (shows' : Shows image inode (16 + nameMax + 1) buff) (entry : image.Entry inode) :
    cString buff 16 nameMax = image.name inode := by
  refine cString_congr fun i within => (shows' (16 + i) ?_ ?_).symm
  · have short := entry.short
    unfold Image.name at short
    unfold nameMax at short within ⊢
    omega
  · have inside := entry.inside
    unfold Image.name at inside
    omega

theorem Image.Entry.header (entry : image.Entry inode) : image.Inside inode := by
  have inside := entry.inside
  unfold Image.Inside
  omega

theorem makeInode_lt (buff : ByteMem) (p : Nat) : makeInode buff p < 4294967296 := by
  unfold makeInode
  omega

theorem absolute_relative {root : Nat} (rootSmall : root < 4294967296) (small : inode < 4294967296) :
    absolute root (relative root inode) = inode := by
  unfold absolute relative u32
  omega

end Shows

section Walk

variable {image : Image} {w : World Instances} {inst head : Nat} {nodes : List Nat}

/-- One round of either loop reads a node. -/
theorem read_entry (mounted : Mounted w inst image) {node : Nat} (entry : image.Entry node)
    (buff : ByteMem) :
    ∃ after, readUnaligned w (w.instances inst).device buff (16 + nameMax + 1) (nodeOffset node) =
        .value after ∧ after 3 = image.node node 3 ∧ makeInode after 0 = image.next node ∧
          cString after 16 nameMax = image.name node := by
  have enough : 16 ≤ 16 + nameMax + 1 := by decide
  obtain ⟨after, read, shows'⟩ := readUnaligned_shows mounted entry.header
    (show 16 + nameMax + 1 ≠ 0 by decide) buff
  exact ⟨after, read, shows'.header entry.header (by decide) enough,
    shows'.makeInode entry.header enough (by decide), shows'.name entry⟩

/-- The counting loop arrives at the node of its position. -/
theorem nodeAt_chain (mounted : Mounted w inst image) (chain : Chain image.next head nodes)
    (entry : ∀ node ∈ nodes, image.Entry node) (left : Nat) (buff : ByteMem) :
    (nodes[left]? = none ∧ nodeAt w (w.instances inst).device left head buff = .value none) ∨
      ∃ node after, nodes[left]? = some node ∧
        nodeAt w (w.instances inst).device left head buff = .value (some (node, after)) ∧
          after 3 = image.node node 3 ∧ cString after 16 nameMax = image.name node := by
  induction nodes generalizing head left buff with
  | nil =>
      obtain rfl : head = 0 := chain
      refine Or.inl ⟨rfl, ?_⟩
      unfold nodeAt
      rw [if_pos rfl]
  | cons node rest ih =>
      obtain ⟨rfl, nonzero, later⟩ := chain
      obtain ⟨after, read, type, next, name⟩ := read_entry mounted (entry head List.mem_cons_self) buff
      unfold nodeAt
      rw [if_neg nonzero, read, Outcome.andThen_value]
      cases left with
      | zero => exact Or.inr ⟨head, after, rfl, rfl, type, name⟩
      | succ left =>
          dsimp only
          rw [next, List.getElem?_cons_succ]
          exact ih later (fun other member => entry other (List.mem_cons_of_mem _ member)) left after

/-- The searching loop arrives at the node with the name, or at the end. -/
theorem findName_chain (mounted : Mounted w inst image) (chain : Chain image.next head nodes)
    (entry : ∀ node ∈ nodes, image.Entry node) {fname : List UInt8} (short : fname.length ≤ nameMax)
    {rounds : Nat} (enough : nodes.length ≤ rounds) (buff : ByteMem) :
    (∃ node ∈ nodes, image.name node = fname ∧
        findName w (w.instances inst).device fname rounds head buff = .value node) ∨
      ((∀ node ∈ nodes, image.name node ≠ fname) ∧
        findName w (w.instances inst).device fname rounds head buff = .error (-enoent)) := by
  induction nodes generalizing head rounds buff with
  | nil =>
      obtain rfl : head = 0 := chain
      refine Or.inr ⟨fun node member => (nomatch member), ?_⟩
      unfold findName
      rw [if_pos rfl]
  | cons node rest ih =>
      obtain ⟨rfl, nonzero, later⟩ := chain
      obtain ⟨after, read, -, next, name⟩ := read_entry mounted (entry head List.mem_cons_self) buff
      have whole : fname.take nameMax = fname := List.take_of_length_le short
      have compared : strncmpEq fname after 16 nameMax = decide (fname = image.name head) := by
        unfold strncmpEq
        rw [whole, name]
      unfold findName
      rw [if_neg nonzero, read, Outcome.andThen_value, compared]
      by_cases same : fname = image.name head
      · rw [if_pos (decide_eq_true same)]
        exact Or.inl ⟨head, List.mem_cons_self, same.symm, rfl⟩
      · rw [if_neg (by rw [decide_eq_true_iff]; exact same)]
        cases rounds with
        | zero => exact absurd enough (Nat.not_succ_le_zero _)
        | succ rounds =>
            dsimp only
            rw [next]
            have found := ih later (fun other member => entry other (List.mem_cons_of_mem _ member))
              (Nat.le_of_succ_le_succ enough) after
            refine found.imp ?_ ?_
            · rintro ⟨other, member, named, found⟩
              exact ⟨other, List.mem_cons_of_mem _ member, named, found⟩
            · rintro ⟨others, ended⟩
              refine ⟨fun other member => ?_, ended⟩
              rcases List.mem_cons.mp member with rfl | inRest
              · exact Ne.symm same
              · exact others other inRest

/-- Every inode of a chain fits an `ino_t`. -/
theorem chain_small (chain : Chain image.next head nodes) (small : head < 4294967296) :
    ∀ node ∈ nodes, node < 4294967296 := by
  induction nodes generalizing head with
  | nil => exact fun node member => nomatch member
  | cons first rest ih =>
      obtain ⟨rfl, -, later⟩ := chain
      intro node member
      rcases List.mem_cons.mp member with rfl | inRest
      · exact small
      · exact ih later (makeInode_lt _ 0) node inRest

theorem first_small (image : Image) {root inode : Nat} (small : inode < 4294967296) :
    image.first root inode < 4294967296 := by
  unfold Image.first
  split
  · exact small
  · exact makeInode_lt _ 4

end Walk

section Directory

variable {image : Image} {w : World Instances} {inst inode : Nat} {nodes : List Nat}

/-- What both functions read first. -/
theorem firstInode_shows {root n : Nat} {buff : ByteMem} (inside : image.Inside inode)
    (shows' : Shows image inode n buff) (enough : 16 ≤ n) :
    firstInode buff root inode =
      if inode = root ∨ typeOf (image.node inode) = 1 then .value (image.first root inode)
      else .error (-enotdir) := by
  have type : typeOf buff = typeOf (image.node inode) := by
    unfold typeOf
    rw [shows'.header inside (by decide) enough]
  unfold firstInode Image.first
  rw [type, shows'.makeInode inside enough (by decide)]
  by_cases isRoot : inode = root
  · rw [if_pos isRoot, if_pos (Or.inl isRoot), if_pos isRoot]
  · rw [if_neg isRoot, if_neg isRoot]
    by_cases isDir : typeOf (image.node inode) = 1
    · rw [if_neg (not_not_intro isDir), if_pos (Or.inr isDir)]
    · rw [if_pos isDir, if_neg (not_or_intro isRoot isDir)]

theorem statInode_shown (mounted : Mounted w inst image) (stale : ByteMem) {node : Nat}
    (inside : image.Inside node) (small : node < 4294967296) :
    ∃ s, statInode stale w inst (relative (w.instances inst).rootInode node) = .value s ∧
      s.ino = relative (w.instances inst).rootInode node ∧ s.mode = image.mode node ∧
        s.size = makeInt (image.node node) 8 := by
  obtain ⟨after, read, shows'⟩ := readUnaligned_shows mounted inside (show 16 ≠ 0 by decide) stale
  obtain ⟨d, found, serve, write, blksize, rfl, -⟩ := mounted.device
  have type := shows'.header inside (show 3 < 16 by decide) (Nat.le_refl 16)
  have size := shows'.makeInt inside (Nat.le_refl 16) (show 8 + 4 ≤ 16 by decide)
  unfold statInode
  dsimp only
  rw [absolute_relative mounted.root small, read, Outcome.andThen_value, found]
  refine ⟨_, rfl, rfl, ?_, size⟩
  unfold Image.mode
  rw [← type]

theorem statInode_inside (mounted : Mounted w inst image) (stale : ByteMem) {node : Nat}
    (inside : image.Inside node) (small : node < 4294967296) :
    ∃ s, statInode stale w inst (relative (w.instances inst).rootInode node) = .value s ∧
      s.ino = relative (w.instances inst).rootInode node ∧ s.mode = image.mode node := by
  obtain ⟨s, answer, ino, mode, -⟩ := statInode_shown mounted stale inside small
  exact ⟨s, answer, ino, mode⟩

/-- The entry at a position. -/
theorem readDirectory_eq (mounted : Mounted w inst image)
    (directory : image.Directory (w.instances inst).rootInode inode nodes) (stale : ByteMem) (pos : Nat) :
    readDirectory stale w inst inode pos =
      .value (nodes[pos]?.map (image.dirent (w.instances inst).rootInode)) := by
  obtain ⟨after, read, shows'⟩ :=
    readUnaligned_shows mounted directory.inside (show 16 ≠ 0 by decide) stale
  unfold readDirectory
  dsimp only
  rw [if_neg (by omega), read, Outcome.andThen_value,
    firstInode_shows directory.inside shows' (Nat.le_refl 16), if_pos directory.type,
    Outcome.andThen_value, Int.toNat_natCast]
  rcases nodeAt_chain mounted directory.chain directory.entry pos after with
    ⟨ended, walked⟩ | ⟨node, last, here, walked, type, name⟩
  · rw [walked, ended]
    rfl
  · have short := (directory.entry node (List.mem_of_getElem? here)).short
    have copied : strncpy last 16 nameMax = image.name node := by
      unfold strncpy
      dsimp only
      rw [name, if_neg (by omega)]
    rw [walked, here, Outcome.andThen_value, Option.map_some, Option.map_some]
    dsimp only
    rw [type, copied]
    rfl

/-- The node with a name, or none. -/
theorem stat_eq (mounted : Mounted w inst image)
    (directory : image.Directory (w.instances inst).rootInode inode nodes) (stale : ByteMem)
    {fname : List UInt8} (named : fname ≠ []) (short : fname.length ≤ nameMax) :
    (∃ node ∈ nodes, image.name node = fname ∧ ∃ s, stat stale w inst inode fname = .value s ∧
        s.ino = relative (w.instances inst).rootInode node ∧ s.mode = image.mode node) ∨
      ((∀ node ∈ nodes, image.name node ≠ fname) ∧
        stat stale w inst inode fname = .error (-enoent)) := by
  have enough : 16 ≤ 16 + nameMax + 1 := by decide
  obtain ⟨after, read, shows'⟩ :=
    readUnaligned_shows mounted directory.inside (show 16 + nameMax + 1 ≠ 0 by decide) stale
  have small := chain_small directory.chain (first_small image (u32_lt _))
  have start : stat stale w inst inode fname =
      (findName w (w.instances inst).device fname 4294967296
        (image.first (w.instances inst).rootInode (absolute (w.instances inst).rootInode inode))
          after).andThen fun node => statInode stale w inst (relative (w.instances inst).rootInode node) := by
    unfold stat
    dsimp only
    rw [read, Outcome.andThen_value, if_neg named,
      firstInode_shows directory.inside shows' enough, if_pos directory.type, Outcome.andThen_value]
  rw [start]
  refine (findName_chain mounted directory.chain directory.entry short
    (directory.chain.length_le small) after).imp ?_ ?_
  · rintro ⟨node, member, same, found⟩
    rw [found, Outcome.andThen_value]
    exact ⟨node, member, same, statInode_inside mounted stale (directory.entry node member).header
      (small node member)⟩
  · rintro ⟨others, ended⟩
    rw [ended]
    exact ⟨others, rfl⟩

theorem nonDirectory_refused (mounted : Mounted w inst image)
    (other : image.NonDirectory (w.instances inst).rootInode inode) (stale : ByteMem) :
    (∀ pos : Nat, readDirectory stale w inst inode pos = .error (-enotdir)) ∧
      ∀ fname, fname ≠ [] → stat stale w inst inode fname = .error (-enotdir) := by
  have refused := not_or_intro other.other other.type
  constructor
  · intro pos
    obtain ⟨after, read, shows'⟩ :=
      readUnaligned_shows mounted other.inside (show 16 ≠ 0 by decide) stale
    unfold readDirectory
    dsimp only
    rw [if_neg (by omega), read, Outcome.andThen_value,
      firstInode_shows other.inside shows' (Nat.le_refl 16), if_neg refused]
    rfl
  · intro fname named
    obtain ⟨after, read, shows'⟩ :=
      readUnaligned_shows mounted other.inside (show 16 + nameMax + 1 ≠ 0 by decide) stale
    unfold stat
    dsimp only
    rw [read, Outcome.andThen_value, if_neg named,
      firstInode_shows other.inside shows' (by decide), if_neg refused]
    rfl

end Directory

/-- Listing a directory gives each of its nodes once, in the order of the chain, and then
nothing; looking up a listed name gives the same node, and the other names are not found.
An inode that is no directory is refused by both. -/
theorem lookup_agrees {image : Image} {w : World Instances} {inst : Nat} (mounted : Mounted w inst image)
    (stale : ByteMem) :
    (∀ inode nodes, image.Directory (w.instances inst).rootInode inode nodes →
      nodes.Nodup ∧
        (∀ pos : Nat, readDirectory stale w inst inode pos =
          .value (nodes[pos]?.map (image.dirent (w.instances inst).rootInode))) ∧
          (∀ (pos : Nat) de, readDirectory stale w inst inode pos = .value (some de) →
            ∃ s, stat stale w inst inode de.name = .value s ∧ s.ino = de.ino ∧ s.mode = de.mode) ∧
            ∀ fname, fname ≠ [] → fname.length < nameMax →
              (stat stale w inst inode fname = .error (-enoent) ↔
                ∀ (pos : Nat) de, readDirectory stale w inst inode pos = .value (some de) →
                  de.name ≠ fname)) ∧
      ∀ inode, image.NonDirectory (w.instances inst).rootInode inode →
        (∀ pos : Nat, readDirectory stale w inst inode pos = .error (-enotdir)) ∧
          ∀ fname, fname ≠ [] → stat stale w inst inode fname = .error (-enotdir) := by
  refine ⟨fun inode nodes directory => ?_, fun inode other => nonDirectory_refused mounted other stale⟩
  have listed (pos : Nat) {de : Dirent} (yields : readDirectory stale w inst inode pos = .value (some de)) :
      ∃ node ∈ nodes, de = image.dirent (w.instances inst).rootInode node := by
    rw [readDirectory_eq mounted directory stale pos] at yields
    obtain ⟨node, here, isNode⟩ := Option.map_eq_some_iff.mp (Outcome.value.inj yields)
    exact ⟨node, List.mem_of_getElem? here, isNode.symm⟩
  refine ⟨directory.chain.nodup, readDirectory_eq mounted directory stale, ?_, ?_⟩
  · intro pos de yields
    obtain ⟨node, member, rfl⟩ := listed pos yields
    have entry := directory.entry node member
    have short : (image.name node).length ≤ nameMax :=
      Nat.le_of_lt (Nat.lt_of_lt_of_le entry.short (Nat.sub_le _ _))
    rcases stat_eq mounted directory stale entry.named short with
      ⟨found, inNodes, same, s, answer, ino, mode⟩ | ⟨others, -⟩
    · obtain rfl := List.inj_on_of_nodup_map directory.distinct inNodes member same
      exact ⟨s, answer, ino, mode⟩
    · exact absurd rfl (others node member)
  · intro fname named short
    rcases stat_eq mounted directory stale named (Nat.le_of_lt short) with
      ⟨node, member, same, s, answer, -⟩ | ⟨others, answer⟩
    · refine iff_of_false (fun missing => nomatch answer.symm.trans missing) fun absent => ?_
      obtain ⟨pos, bound, here⟩ := List.getElem_of_mem member
      refine absent pos (image.dirent (w.instances inst).rootInode node) ?_ same
      rw [readDirectory_eq mounted directory stale pos, List.getElem?_eq_getElem bound, here]
      rfl
    · refine iff_of_true answer fun pos de yields => ?_
      obtain ⟨node, member, rfl⟩ := listed pos yields
      exact others node member

/-- A root directory with the node `.` and an empty file `a`. -/
def smallImage : Image where
  len := 96
  bytes := fun i =>
    if i = 35 then 0x49 else if i = 39 then 0x20 else if i = 48 then 46
    else if i = 67 then 2 else if i = 80 then 97 else 0

def smallWorld : World Instances := ⟨fun _ => some (memblk smallImage), fun _ => ⟨true, 0, 2⟩⟩

theorem smallWorld_mounted : Mounted smallWorld 0 smallImage :=
  ⟨⟨_, rfl, memblk_serves smallImage⟩, by decide⟩

theorem smallImage_entry : ∀ node ∈ [2, 4], smallImage.Entry node := by
  intro node member
  rcases List.mem_cons.mp member with rfl | rest
  · exact ⟨by decide +kernel, by decide +kernel, by decide +kernel⟩
  · obtain rfl := List.mem_singleton.mp rest
    exact ⟨by decide +kernel, by decide +kernel, by decide +kernel⟩

theorem smallImage_directory : smallImage.Directory 2 0 [2, 4] :=
  ⟨by unfold Image.Inside; decide +kernel, Or.inl rfl, by decide +kernel, smallImage_entry,
    by decide +kernel⟩

theorem lookup_agrees_small : ∃ nodes, smallImage.Directory 2 0 nodes ∧ nodes.Nodup ∧
    ∀ pos : Nat, readDirectory (fun _ => 255) smallWorld 0 0 pos =
      .value (nodes[pos]?.map (smallImage.dirent 2)) := by
  obtain ⟨distinct, lists, -⟩ :=
    (lookup_agrees smallWorld_mounted (fun _ => 255)).1 0 [2, 4] smallImage_directory
  exact ⟨[2, 4], smallImage_directory, distinct, lists⟩

end TrollOS.Romfs
