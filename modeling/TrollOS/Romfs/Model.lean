import TrollOS.Device.Registry
import TrollOS.Lib.CString
import TrollOS.Vfs.Model

/-!
# The romfs driver

`kernel/modules/fs/romfs.c`.  A buffer is a byte memory with whatever was on the stack,
`stale`, in the places a read does not reach.  An inode is the number of a block of 16
bytes, for the rest of the kernel counted from the root's.  A device that is not there
makes the code follow a null pointer: such a call never returns.
-/

namespace TrollOS.Romfs

open TrollOS.Lib Vfs

def maxRomfs : Nat := 2

structure Instance where
  used : Bool
  device : Nat
  rootInode : Nat

abbrev Instances := Nat → Instance

def makeInt (buff : ByteMem) (p : Nat) : Int := toInt32 (buff.load32 p)

/-- `MAKE_INT(ptr) >> 4` as an `ino_t`. -/
def makeInode (buff : ByteMem) (p : Nat) : Nat := (makeInt buff p / 16 % 4294967296).toNat

/-- A sum of type `int`. -/
def wrap32 (value : Int) : Int := value.bmod 4294967296

/-- What a read puts into a buffer. -/
def fill (buff : ByteMem) (bytes : List UInt8) : ByteMem := fun i => bytes.getD i (buff i)

/-- `_read_unaligned`; no caller looks at the return value. -/
def readUnaligned (w : World Instances) (dev : Nat) (buff : ByteMem) (bytes : Nat) (offset : Int) :
    Outcome ByteMem :=
  if offset < 0 then .value buff
  else if bytes = 0 then .value buff
  else
    match w.deviceLookup dev with
    | some (.block (some read) _ _) => .value (fill buff (read dev offset bytes).2)
    | _ => .hang

def typeOf (buff : ByteMem) : UInt8 := buff 3 &&& 7

def byteToMode (byte : UInt8) : Nat :=
  let mode :=
    if byte &&& 7 = 1 then sIfdir ||| 0o444
    else if byte &&& 7 = 2 then sIfreg ||| 0o444
    else if byte &&& 7 = 3 then sIflnk ||| 0o444
    else if byte &&& 7 = 4 then sIfblk
    else if byte &&& 7 = 5 then sIfchr
    else if byte &&& 7 = 6 then sIfsock ||| 0o444
    else sIfifo ||| 0o444
  if byte &&& 8 = 0 then mode else mode ||| 0o111

def byteToRdev (byte : UInt8) (special : Nat) : Nat :=
  if byte &&& 7 = 4 ∨ byte &&& 7 = 5 then makedev (special / 65536) (special % 65536) else 0

/-- The absolute inode of one counted from the root, and back. -/
def absolute (root inode : Nat) : Nat := u32 (inode + root)

def relative (root inode : Nat) : Nat := u32 (inode + (4294967296 - root))

def nodeOffset (inode : Nat) : Nat := u32 (inode * 16)

/-- `strncpy` of a string in a buffer; a copy of `max` bytes loses its last one. -/
def strncpy (buff : ByteMem) (p max : Nat) : List UInt8 :=
  let copied := cString buff p max
  if copied.length = max then copied.take (max - 1) else copied

def strncmpEq (s : List UInt8) (buff : ByteMem) (p n : Nat) : Bool := s.take n = cString buff p n

/-- The first inode of a directory: the root is the first of its own nodes. -/
def firstInode (buff : ByteMem) (root inode : Nat) : Outcome Nat :=
  if inode = root then .value inode
  else if typeOf buff ≠ 1 then .error (-enotdir)
  else .value (makeInode buff 4)

/-- The loop of `fs_romfs_read_directory` with `left` nodes to go; an inode 0 ends it. -/
def nodeAt (w : World Instances) (dev : Nat) : Nat → Nat → ByteMem → Outcome (Option (Nat × ByteMem))
  | left, inode, buff =>
      if inode = 0 then .value none
      else
        (readUnaligned w dev buff (16 + nameMax + 1) (nodeOffset inode)).andThen fun buff =>
          match left with
          | 0 => .value (some (inode, buff))
          | left + 1 => nodeAt w dev left (makeInode buff 0) buff

def readDirectory (stale : ByteMem) (w : World Instances) (inst inode : Nat) (pos : Int) :
    Outcome (Option Dirent) :=
  let root := (w.instances inst).rootInode
  let dev := (w.instances inst).device
  let inode := absolute root inode
  if pos < 0 then .error (-einval)
  else
    (readUnaligned w dev stale 16 (nodeOffset inode)).andThen fun buff =>
      (firstInode buff root inode).andThen fun first =>
        (nodeAt w dev pos.toNat first buff).andThen fun found =>
          .value (found.map fun (inode, buff) =>
            ⟨relative root inode, byteToMode (buff 3), strncpy buff 16 nameMax⟩)

def statInode (stale : ByteMem) (w : World Instances) (inst inode : Nat) : Outcome Stat :=
  let root := (w.instances inst).rootInode
  let dev := (w.instances inst).device
  let inode := absolute root inode
  (readUnaligned w dev stale 16 (nodeOffset inode)).andThen fun buff =>
    match w.deviceLookup dev with
    | some (.block _ _ blksize) =>
        .value
          { dev := dev
            ino := relative root inode
            rdev := byteToRdev (buff 3) (buff.load32 4)
            mode := byteToMode (buff 3)
            nlink := 1
            uid := 0
            gid := 0
            size := makeInt buff 8
            blksize := blksize dev
            blocks := ((wrap32 (makeInt buff 8 + blksize dev - 1)).tdiv (blksize dev) % 18446744073709551616).toNat
            mtime := 0 }
    | _ => .hang

/-- The loop of `fs_romfs_stat`: the inode with the name. -/
def findName (w : World Instances) (dev : Nat) (fname : List UInt8) :
    Nat → Nat → ByteMem → Outcome Nat
  | rounds, inode, buff =>
      if inode = 0 then .error (-enoent)
      else
        (readUnaligned w dev buff (16 + nameMax + 1) (nodeOffset inode)).andThen fun buff =>
          if strncmpEq fname buff 16 nameMax then .value inode
          else
            match rounds with
            | 0 => .hang
            | rounds + 1 => findName w dev fname rounds (makeInode buff 0) buff

/-- `fs_romfs_stat`.  A search that meets more nodes than there are inodes goes round for
ever. -/
def stat (stale : ByteMem) (w : World Instances) (inst inode : Nat) (fname : List UInt8) :
    Outcome Stat :=
  let root := (w.instances inst).rootInode
  let dev := (w.instances inst).device
  let inode := absolute root inode
  (readUnaligned w dev stale (16 + nameMax + 1) (nodeOffset inode)).andThen fun buff =>
    if fname = [] then statInode stale w inst (relative root inode)
    else
      (firstInode buff root inode).andThen fun first =>
        (findName w dev fname 4294967296 first buff).andThen fun inode =>
          statInode stale w inst (relative root inode)

/-- `_read_unaligned` into the buffer of a caller: the bytes put there. -/
def readData (w : World Instances) (dev bytes : Nat) (offset : Int) : Outcome (List UInt8) :=
  if offset < 0 then .value []
  else if bytes = 0 then .value []
  else
    match w.deviceLookup dev with
    | some (.block (some read) _ _) => .value (read dev offset bytes).2
    | _ => .hang

/-- The loop of `fs_romfs_read` over the name, with `left` rounds to go: the round in which
16 bytes with a NUL have been read, or 16. -/
def nameRounds (w : World Instances) (dev inode : Nat) : Nat → Nat → ByteMem → Outcome Nat
  | 0, i, _ => .value i
  | left + 1, i, node =>
      (readUnaligned w dev node 16 (u32 (nodeOffset inode + 16 + i * 16))).andThen fun node =>
        if (List.range 16).any fun j => node j == 0 then .value i
        else nameRounds w dev inode left (i + 1) node

/-- `fs_romfs_read`: the return value and the bytes put into the buffer. -/
def read (stale : ByteMem) (w : World Instances) (inst inode bytes : Nat) (offset : Int) :
    Outcome (Int × List UInt8) :=
  let root := (w.instances inst).rootInode
  let dev := (w.instances inst).device
  let inode := absolute root inode
  (readUnaligned w dev stale 16 (nodeOffset inode)).andThen fun node =>
    let size := makeInt node 8
    let bytes := if size < toInt64 (offset + bytes) then (toInt64 (size - offset) % 4294967296).toNat else bytes
    (nameRounds w dev inode 16 0 node).andThen fun i =>
      (readData w dev bytes (toInt64 (u32 (nodeOffset inode + 16 + (i + 1) * 16) + offset))).andThen
        fun data => .value (toInt32 bytes, data)

def magic : List UInt8 := [45, 114, 111, 109, 49, 102, 115, 45]

/-- The first instance that is not in use. -/
def freeInstance (instances : Instances) : Option Nat :=
  (List.range maxRomfs).find? fun q => !(instances q).used

/-- `fs_romfs_mount`: the instances afterwards, and the number of the instance with the inode of
the root. -/
def mount (stale : ByteMem) (w : World Instances) (dev : Nat) : Instances × Outcome (Nat × Nat) :=
  match freeInstance w.instances with
  | none => (w.instances, .error (-enomem))
  | some q =>
      let instances := Function.update w.instances q { w.instances q with device := dev }
      match readUnaligned w dev stale 512 0 with
      | .error errno => (instances, .error errno)
      | .hang => (instances, .hang)
      | .value buff =>
          if cString buff 0 8 ≠ magic then (instances, .error (-einval))
          else
            match (List.range' 16 496).find? fun i => buff i == 0 with
            | none => (instances, .error (-einval))
            | some i =>
                (Function.update instances q
                  { instances q with rootInode := (i + 16) / 16, used := true }, .value (q, 0))

/-- What `fs_romfs_init` registers. -/
def fsType (stale : ByteMem) : FSType Instances where
  used := true
  name := "romfs"
  mount := mount stale
  stat := stat stale
  statInode := statInode stale
  read := read stale
  readDirectory := readDirectory stale

end TrollOS.Romfs
