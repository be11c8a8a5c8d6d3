import TrollOS.Romfs.Reading

/-!
# Images of trees

What a tree of directories and files is as a romfs image.  A node is a header of four words, a name
padded with zeros to whole blocks of 16 bytes, and behind it the bytes of a file.  The first word
leads to the next node of the same directory, the second one of a directory to its first node.  The
root's first node, `.`, stands right behind the name of the volume.
-/

namespace TrollOS.Romfs

open TrollOS.Lib Vfs

inductive Entries where
  | nil
  | file (name content : List UInt8) (rest : Entries)
  | dir (name : List UInt8) (inner rest : Entries)

inductive Item where
  | file (content : List UInt8)
  | dir (entries : Entries)

namespace Entries

def names : Entries → List (List UInt8)
  | nil => []
  | file name _ rest => name :: rest.names
  | dir name _ rest => name :: rest.names

def lookup (fname : List UInt8) : Entries → Option Item
  | nil => none
  | file name content rest => if name = fname then some (.file content) else rest.lookup fname
  | dir name inner rest => if name = fname then some (.dir inner) else rest.lookup fname

end Entries

/-- What a path of names leads to. -/
def Item.find : Item → List (List UInt8) → Option Item
  | item, [] => some item
  | .file _, _ :: _ => none
  | .dir entries, name :: names =>
      match entries.lookup name with
      | some item => item.find names
      | none => none

/-- A name an entry can have. -/
structure EntryName (name : List UInt8) : Prop where
  nonempty : name ≠ []
  short : name.length < 256
  plain : slash ∉ name
  text : 0 ∉ name

/-- All names are proper, and no directory has one twice. -/
def Entries.Named : Entries → Prop
  | .nil => True
  | .file name _ rest => EntryName name ∧ name ∉ rest.names ∧ rest.Named
  | .dir name inner rest => EntryName name ∧ name ∉ rest.names ∧ inner.Named ∧ rest.Named

def paddedLength (name : List UInt8) : Nat := 16 * (name.length / 16 + 1)

namespace Image

def HasName (image : Image) (offset : Nat) (name : List UInt8) : Prop :=
  ∀ i < paddedLength name, image.bytes (offset + i) = name.getD i 0

/-- A node with its four words but the checksum; a volume ends before 2 ^ 32, as its size is a word. -/
structure HasNode (image : Image) (offset : Nat) (name : List UInt8) (type next info size : Nat) : Prop where
  aligned : 16 ∣ offset
  nextAligned : 16 ∣ next
  first : ∃ bits < 16, bits % 8 = type ∧ image.bytes.load32 offset = next + bits
  second : image.bytes.load32 (offset + 4) = info
  third : image.bytes.load32 (offset + 8) = size
  written : image.HasName (offset + 16) name
  inside : offset + 16 + paddedLength name + size ≤ image.len
  small : offset + 16 + paddedLength name + size < 4294967296

/-- The entries of a directory whose first node is at `head`, or 0 if there is none; all nodes stand
behind `start`. -/
def HasEntries (image : Image) (start : Nat) : Entries → Nat → Prop
  | .nil, head => head = 0
  | .file name content rest, head =>
      start < head ∧ ∃ next info, image.HasNode head name 2 next info content.length ∧
        (∀ i, ∀ inside : i < content.length, image.bytes (head + 16 + paddedLength name + i) = content[i]) ∧
        HasEntries image start rest next
  | .dir name inner rest, head =>
      start < head ∧ ∃ next info, image.HasNode head name 1 next info 0 ∧ 16 ∣ info ∧
        HasEntries image start inner info ∧ HasEntries image start rest next

/-- Where the root's first node is, behind the name of the volume. -/
def rootOffset (label : List UInt8) : Nat := 16 + paddedLength label

def dot : List UInt8 := [46]

/-- A whole volume. -/
structure Volume (image : Image) (label : List UInt8) (entries : Entries) : Prop where
  magic : ∀ i < 8, image.bytes i = Romfs.magic.getD i 0
  written : image.HasName 16 label
  labelText : 0 ∉ label
  labelEnds : 16 + label.length < 512
  root : ∃ next info, image.HasNode (rootOffset label) dot 1 next info 0 ∧
    image.HasEntries (rootOffset label) entries next
  named : entries.Named
  other : dot ∉ entries.names

end Image

/-! ## Nodes -/

def inodeAt (offset : Nat) : Nat := (toInt32 offset / 16 % 4294967296).toNat

theorem inodeAt_lt (offset : Nat) : inodeAt offset < 4294967296 := by
  unfold inodeAt
  omega

theorem nodeOffset_inodeAt {offset : Nat} (aligned : 16 ∣ offset) (small : offset < 4294967296) :
    nodeOffset (inodeAt offset) = offset := by
  unfold nodeOffset inodeAt toInt32 u32
  split
  · omega
  · omega

theorem inodeAt_small {offset : Nat} (small : offset < 2147483648) : inodeAt offset = offset / 16 := by
  unfold inodeAt toInt32
  rw [if_pos small]
  omega

theorem inodeAt_ne_zero {offset : Nat} (aligned : 16 ∣ offset) (small : offset < 4294967296)
    (positive : 0 < offset) : inodeAt offset ≠ 0 := by
  intro zero
  have back := nodeOffset_inodeAt aligned small
  rw [zero] at back
  exact absurd back.symm (Nat.ne_of_gt positive)

theorem makeInode_word {m : ByteMem} {p next bits : Nat} (word : m.load32 p = next + bits) (few : bits < 16)
    (aligned : 16 ∣ next) : makeInode m p = inodeAt next := by
  have small := ByteMem.load32_lt m p
  unfold makeInode makeInt inodeAt toInt32
  rw [word] at small ⊢
  split <;> split <;> omega

theorem typeOf_word {m : ByteMem} {next bits : Nat} (word : m.load32 0 = next + bits) (aligned : 16 ∣ next) :
    (typeOf m).toNat = bits % 8 := by
  unfold ByteMem.load32 at word
  unfold typeOf
  have mask : (m 3 &&& 7).toNat = (m 3).toNat % 8 := Nat.and_two_pow_sub_one_eq_mod (m 3).toNat 3
  rw [mask]
  change _ + (m 3).toNat = _ at word
  omega

namespace Image

theorem load32_node (image : Image) (inode p : Nat) :
    (image.node inode).load32 p = image.bytes.load32 (nodeOffset inode + p) := rfl

section HasNode

variable {image : Image} {offset type next info size : Nat} {name : List UInt8}

theorem HasNode.begins (node : image.HasNode offset name type next info size) : offset < 4294967296 := by
  have small := node.small
  omega

theorem HasNode.place (node : image.HasNode offset name type next info size) :
    nodeOffset (inodeAt offset) = offset :=
  nodeOffset_inodeAt node.aligned node.begins

theorem HasNode.shown (node : image.HasNode offset name type next info size)
    (named : EntryName name) : image.name (inodeAt offset) = name := by
  refine cString_eq named.text (Nat.le_of_lt (Nat.lt_trans named.short (by decide))) fun i _ within => ?_
  unfold Image.node
  rw [node.place, ← Nat.add_assoc]
  refine node.written i ?_
  unfold paddedLength
  omega

theorem HasNode.entry (node : image.HasNode offset name type next info size)
    (named : EntryName name) : image.Entry (inodeAt offset) := by
  have inside := node.inside
  have short := named.short
  unfold paddedLength at inside
  constructor
  · rw [node.shown named]
    exact named.nonempty
  · rw [node.shown named]
    exact Nat.lt_trans short (by decide)
  · rw [node.shown named, node.place]
    omega

theorem HasNode.leads (node : image.HasNode offset name type next info size) :
    image.next (inodeAt offset) = inodeAt next ∧ (typeOf (image.node (inodeAt offset))).toNat = type ∧
      makeInt (image.node (inodeAt offset)) 8 = toInt32 size := by
  obtain ⟨bits, few, kind, word⟩ := node.first
  have first : (image.node (inodeAt offset)).load32 0 = next + bits := by
    rw [load32_node, node.place]
    exact word
  refine ⟨makeInode_word first few node.nextAligned, (typeOf_word first node.nextAligned).trans kind, ?_⟩
  unfold makeInt
  rw [load32_node, node.place, node.third]

theorem HasNode.inner (node : image.HasNode offset name type next info size)
    (aligned : 16 ∣ info) : makeInode (image.node (inodeAt offset)) 4 = inodeAt info := by
  refine @makeInode_word _ 4 info 0 ?_ (by decide) aligned
  rw [load32_node, node.place, node.second]
  rfl

theorem HasNode.start (node : image.HasNode offset name type next info size)
    (named : EntryName name) : image.fileStart (inodeAt offset) = offset + 16 + paddedLength name := by
  unfold Image.fileStart
  rw [node.place, node.shown named]
  rfl

end HasNode

end Image

/-! ## Directories -/

namespace Image

/-- A node is what an entry says. -/
def HasItem (image : Image) (start node : Nat) : Item → Prop
  | .file content =>
      (typeOf (image.node node)).toNat = 2 ∧ makeInt (image.node node) 8 = toInt32 content.length ∧
        image.fileStart node + content.length ≤ image.len ∧ image.fileStart node + content.length < 4294967296 ∧
          ∀ i, ∀ inside : i < content.length, image.bytes (image.fileStart node + i) = content[i]
  | .dir inner =>
      (typeOf (image.node node)).toNat = 1 ∧ makeInt (image.node node) 8 = 0 ∧ inner.Named ∧
        ∃ head, makeInode (image.node node) 4 = inodeAt head ∧ image.HasEntries start inner head

/-- The node of an entry. -/
structure Found (image : Image) (start node : Nat) (item : Item) : Prop where
  entry : image.Entry node
  small : node < 4294967296
  behind : start < nodeOffset node
  short : (image.name node).length < 256
  item : image.HasItem start node item

variable {image : Image} {start : Nat}

/-- The nodes of a chain are those of the entries. -/
structure Chained (image : Image) (start : Nat) (entries : Entries) (nodes : List Nat) : Prop where
  names : nodes.map image.name = entries.names
  found : ∀ node ∈ nodes, ∃ item, entries.lookup (image.name node) = some item ∧ image.Found start node item

/-- One more entry in front. -/
theorem Chained.cons {entries rest : Entries} {nodes : List Nat} {name : List UInt8} {node : Nat} {item : Item}
    (chained : image.Chained start rest nodes) (here : image.Found start node item)
    (shown : image.name node = name) (fresh : name ∉ rest.names)
    (names : entries.names = name :: rest.names)
    (lookup : ∀ fname, entries.lookup fname = if name = fname then some item else rest.lookup fname) :
    image.Chained start entries (node :: nodes) := by
  constructor
  · rw [List.map_cons, shown, names, chained.names]
  · intro other member
    rw [lookup]
    rcases List.mem_cons.1 member with rfl | later
    · exact ⟨item, if_pos shown.symm, here⟩
    · have different : name ≠ image.name other := by
        rintro rfl
        rw [← chained.names] at fresh
        exact fresh (List.mem_map_of_mem later)
      rw [if_neg different]
      exact chained.found other later

theorem HasEntries.nodes {entries : Entries} {head : Nat} (has : image.HasEntries start entries head) (named : entries.Named) :
    ∃ nodes, Chain image.next (inodeAt head) nodes ∧ image.Chained start entries nodes := by
  have nonzero : ∀ {offset : Nat}, 16 ∣ offset → offset < 4294967296 → start < offset → inodeAt offset ≠ 0 :=
    fun aligned fits behind => inodeAt_ne_zero aligned fits (Nat.lt_of_le_of_lt (Nat.zero_le _) behind)
  induction entries generalizing head with
  | nil =>
      obtain rfl : head = 0 := has
      exact ⟨[], rfl, rfl, fun node member => absurd member List.not_mem_nil⟩
  | file name content rest ih =>
      obtain ⟨behind, next, info, node, bytes, later⟩ := has
      obtain ⟨proper, fresh, named'⟩ := named
      obtain ⟨nodes, chain, chained⟩ := ih later named'
      obtain ⟨leads, type, size⟩ := node.leads
      have shown := node.shown proper
      have begins := node.start proper
      have here : image.Found start (inodeAt head) (.file content) := by
        refine ⟨node.entry proper, inodeAt_lt head, ?_, ?_, type, size, ?_, ?_, ?_⟩
        · rw [node.place]
          exact behind
        · rw [shown]
          exact proper.short
        · rw [begins]
          exact node.inside
        · rw [begins]
          exact node.small
        · rw [begins]
          exact bytes
      refine ⟨inodeAt head :: nodes, ⟨rfl, nonzero node.aligned node.begins behind, ?_⟩,
        chained.cons here shown fresh rfl fun _ => rfl⟩
      rw [leads]
      exact chain
  | dir name inner rest inner_ih ih =>
      obtain ⟨behind, next, info, node, aligned, inside, later⟩ := has
      obtain ⟨proper, fresh, inner_named, named'⟩ := named
      obtain ⟨nodes, chain, chained⟩ := ih later named'
      obtain ⟨leads, type, size⟩ := node.leads
      have shown := node.shown proper
      have here : image.Found start (inodeAt head) (.dir inner) := by
        refine ⟨node.entry proper, inodeAt_lt head, ?_, ?_, type, size, inner_named, info,
          node.inner aligned, inside⟩
        · rw [node.place]
          exact behind
        · rw [shown]
          exact proper.short
      refine ⟨inodeAt head :: nodes, ⟨rfl, nonzero node.aligned node.begins behind, ?_⟩,
        chained.cons here shown fresh rfl fun _ => rfl⟩
      rw [leads]
      exact chain

theorem names_nodup {entries : Entries} (named : entries.Named) : entries.names.Nodup := by
  induction entries with
  | nil => exact List.nodup_nil
  | file name content rest ih => exact List.nodup_cons.2 ⟨named.2.1, ih named.2.2⟩
  | dir name inner rest inner_ih ih => exact List.nodup_cons.2 ⟨named.2.1, ih named.2.2.2⟩

theorem lookup_none {entries : Entries} {fname : List UInt8} (absent : fname ∉ entries.names) :
    entries.lookup fname = none := by
  induction entries with
  | nil => rfl
  | file name content rest ih =>
      obtain ⟨other, later⟩ := not_or.1 (mt List.mem_cons.2 absent)
      exact (if_neg (Ne.symm other)).trans (ih later)
  | dir name inner rest inner_ih ih =>
      obtain ⟨other, later⟩ := not_or.1 (mt List.mem_cons.2 absent)
      exact (if_neg (Ne.symm other)).trans (ih later)

/-- A directory the driver reads, with other names in front of those of the entries. -/
structure Lists (image : Image) (start inode : Nat) (front : List (List UInt8)) (entries : Entries) : Prop where
  nodes : ∃ nodes, image.Directory (start / 16) inode nodes ∧
    ∀ fname, fname ∉ front →
      (∀ node ∈ nodes, image.name node = fname →
        ∃ item, entries.lookup fname = some item ∧ image.Found start node item) ∧
      ((∀ node ∈ nodes, image.name node ≠ fname) → entries.lookup fname = none)

/-- What a chain of entries says about a name. -/
theorem Chained.search {entries : Entries} {nodes : List Nat} (chained : image.Chained start entries nodes)
    (fname : List UInt8) :
    (∀ node ∈ nodes, image.name node = fname →
        ∃ item, entries.lookup fname = some item ∧ image.Found start node item) ∧
      ((∀ node ∈ nodes, image.name node ≠ fname) → entries.lookup fname = none) := by
  constructor
  · rintro node member rfl
    exact chained.found node member
  · intro none
    refine lookup_none fun member => ?_
    rw [← chained.names] at member
    obtain ⟨node, inNodes, same⟩ := List.mem_map.1 member
    exact none node inNodes same

theorem Found.beyond {node : Nat} {item : Item} (found : image.Found start node item) : node ≠ start / 16 := by
  rintro rfl
  have behind := found.behind
  unfold nodeOffset u32 at behind
  omega

/-- No node is where the driver sees the mark of the root mount. -/
theorem Found.plain {node : Nat} {item : Item} (found : image.Found start node item) (positive : 16 ≤ start)
    (fits : start < 1024) : relative (start / 16) node ≠ allOnes := by
  have behind := found.behind
  have small := found.small
  unfold nodeOffset u32 at behind
  unfold relative u32 allOnes
  omega

theorem Found.lists {node : Nat} {inner : Entries} (found : image.Found start node (.dir inner)) (fits : start < 1024) :
    image.Lists start (relative (start / 16) node) [] inner := by
  obtain ⟨type, -, named, head, leads, has⟩ := found.item
  obtain ⟨nodes, chain, chained⟩ := has.nodes named
  have back : absolute (start / 16) (relative (start / 16) node) = node :=
    absolute_relative (by omega) found.small
  refine ⟨nodes, ⟨?_, ?_, ?_, ?_, ?_⟩, fun fname _ => chained.search fname⟩
  · rw [back]
    exact found.entry.header
  · rw [back]
    exact Or.inr (UInt8.toNat_inj.1 type)
  · rw [back]
    unfold Image.first
    rw [if_neg found.beyond, leads]
    exact chain
  · intro other member
    obtain ⟨item, -, there⟩ := chained.found other member
    exact there.entry
  · rw [chained.names]
    exact names_nodup named

theorem dot_proper : EntryName dot := ⟨by decide, by decide, by decide, by decide⟩

section Volume

variable {label : List UInt8} {entries : Entries}

theorem rootOffset_bounds (volume : image.Volume label entries) :
    16 ≤ rootOffset label ∧ rootOffset label < 1024 ∧ rootOffset label / 16 = label.length / 16 + 2 ∧
      16 ∣ rootOffset label := by
  have ends := volume.labelEnds
  unfold rootOffset paddedLength
  omega

theorem Volume.rootNode (volume : image.Volume label entries) :
    inodeAt (rootOffset label) = rootOffset label / 16 := by
  obtain ⟨-, fits, -⟩ := rootOffset_bounds volume
  exact inodeAt_small (Nat.lt_trans fits (by decide))

/-- The root lists its own first node and the entries. -/
theorem Volume.lists (volume : image.Volume label entries) :
    image.Lists (rootOffset label) 0 [dot] entries := by
  obtain ⟨large, fits, -, -⟩ := rootOffset_bounds volume
  obtain ⟨next, info, node, has⟩ := volume.root
  obtain ⟨nodes, chain, chained⟩ := has.nodes volume.named
  obtain ⟨leads, type, -⟩ := node.leads
  have shown := node.shown dot_proper
  have entry := node.entry dot_proper
  rw [volume.rootNode] at leads type shown entry
  have root : absolute (rootOffset label / 16) 0 = rootOffset label / 16 := by
    unfold absolute u32
    omega
  refine ⟨rootOffset label / 16 :: nodes, ⟨?_, ?_, ?_, ?_, ?_⟩, fun fname other => ⟨?_, ?_⟩⟩
  · rw [root]
    exact entry.header
  · exact Or.inl root
  · rw [root]
    refine ⟨if_pos rfl, by omega, ?_⟩
    rw [leads]
    exact chain
  · intro other member
    rcases List.mem_cons.1 member with rfl | later
    · exact entry
    · obtain ⟨item, -, there⟩ := chained.found other later
      exact there.entry
  · rw [List.map_cons, shown, chained.names]
    exact List.nodup_cons.2 ⟨volume.other, names_nodup volume.named⟩
  · intro node member same
    rcases List.mem_cons.1 member with rfl | later
    · rw [← same, shown] at other
      exact absurd List.mem_cons_self other
    · exact (chained.search fname).1 node later same
  · intro none
    exact (chained.search fname).2 fun node member => none node (List.mem_cons_of_mem _ member)

/-- The root's first node is an empty directory to `fs_romfs_stat_inode`. -/
theorem Volume.rootItem (volume : image.Volume label entries) :
    image.Inside (rootOffset label / 16) ∧ (typeOf (image.node (rootOffset label / 16))).toNat = 1 ∧
      makeInt (image.node (rootOffset label / 16)) 8 = 0 := by
  obtain ⟨next, info, node, -⟩ := volume.root
  obtain ⟨-, type, size⟩ := node.leads
  have entry := node.entry dot_proper
  rw [volume.rootNode] at type size entry
  exact ⟨entry.header, type, size⟩

end Volume

end Image

/-! ## Looking up -/

theorem byteToMode_dir {byte : UInt8} (type : (byte &&& 7).toNat = 1) : byteToMode byte &&& sIfmt = sIfdir := by
  have kind : byte &&& 7 = 1 := UInt8.toNat_inj.1 type
  unfold byteToMode
  rw [if_pos kind]
  dsimp only
  split <;> decide

theorem byteToMode_reg {byte : UInt8} (type : (byte &&& 7).toNat = 2) : byteToMode byte &&& sIfmt = sIfreg := by
  have kind : byte &&& 7 = 2 := UInt8.toNat_inj.1 type
  have other : ¬ byte &&& 7 = 1 := by
    rw [kind]
    decide
  unfold byteToMode
  rw [if_neg other, if_pos kind]
  dsimp only
  split <;> decide

/-- A stat of the type and size of an item. -/
def Item.Described (s : Stat) : Item → Prop
  | .file content => s.isReg = true ∧ s.size = toInt32 content.length
  | .dir _ => s.isDir = true ∧ s.size = 0

section Lookup

variable {image : Image} {w : World Instances} {inst start inode node : Nat} {item : Item} {front : List (List UInt8)}
  {entries : Entries} {fname : List UInt8}

theorem Image.Lists.stat (lists : image.Lists start inode front entries) (mounted : Mounted w inst image)
    (root : (w.instances inst).rootInode = start / 16) (stale : ByteMem) (nonempty : fname ≠ [])
    (short : fname.length ≤ nameMax) (other : fname ∉ front) :
    (∃ item node s, entries.lookup fname = some item ∧ image.Found start node item ∧
        Romfs.stat stale w inst inode fname = .value s ∧ s.ino = relative (start / 16) node ∧
          s.mode = image.mode node) ∨
      (entries.lookup fname = none ∧ Romfs.stat stale w inst inode fname = .error (-enoent)) := by
  obtain ⟨nodes, directory, search⟩ := lists.nodes
  obtain ⟨found, missing⟩ := search fname other
  rw [← root] at directory
  rcases stat_eq mounted directory stale nonempty short with
    ⟨node, member, same, s, answer, ino, mode⟩ | ⟨none, answer⟩
  · obtain ⟨item, looked, there⟩ := found node member same
    rw [root] at ino
    exact Or.inl ⟨item, node, s, looked, there, answer, ino, mode⟩
  · exact Or.inr ⟨missing none, answer⟩

/-- The mode of a node is that of its item. -/
theorem Image.Found.mode (found : image.Found start node item) {s : Stat} (mode : s.mode = image.mode node) :
    match item with
    | .file _ => s.isReg = true
    | .dir _ => s.isDir = true := by
  cases item with
  | file content =>
      refine beq_iff_eq.2 ?_
      rw [mode]
      exact byteToMode_reg found.item.1
  | dir inner =>
      refine beq_iff_eq.2 ?_
      rw [mode]
      exact byteToMode_dir found.item.1

/-- `fs_romfs_stat_inode` of a node. -/
theorem Image.Found.stat (found : image.Found start node item) (mounted : Mounted w inst image)
    (root : (w.instances inst).rootInode = start / 16) (stale : ByteMem) :
    ∃ s, statInode stale w inst (relative (start / 16) node) = .value s ∧
      s.ino = relative (start / 16) node ∧ item.Described s := by
  obtain ⟨s, answer, ino, mode, size⟩ := statInode_shown mounted stale found.entry.header found.small
  rw [root] at answer ino
  refine ⟨s, answer, ino, ?_⟩
  have kind := found.mode mode
  cases item with
  | file content => exact ⟨kind, size.trans found.item.2.1⟩
  | dir inner => exact ⟨kind, size.trans found.item.2.1⟩

end Lookup

end TrollOS.Romfs
