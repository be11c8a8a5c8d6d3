import TrollOS.Errno
import TrollOS.Lib.Outcome

/-!
# The virtual file system

`kernel/vfs.c`: the file table, the mount table, path resolution, opening and
reading.  A file-system driver is a record of functions over the world it can
see: the registered devices and the drivers' own instances, of type `ι`.  C
strings are byte lists without their NUL; `&path[pos]` is the rest of the list.
-/

namespace TrollOS.Vfs

open TrollOS.Lib

def maxGlobalFiles : Nat := 1024

def maxMountPoints : Nat := 16

def maxFileSystems : Nat := 4

def nameMax : Nat := 1024

/-- `~0` as a `dev_t` or an `ino_t`: the mark of the root mount. -/
def allOnes : Nat := 4294967295

def slash : UInt8 := 47

def sIfmt : Nat := 0o170000
def sIfdir : Nat := 0o040000
def sIfchr : Nat := 0o020000
def sIfblk : Nat := 0o060000
def sIfreg : Nat := 0o100000
def sIfifo : Nat := 0o010000
def sIflnk : Nat := 0o120000
def sIfsock : Nat := 0o140000

structure Stat where
  dev : Nat
  ino : Nat
  mode : Nat
  nlink : Nat
  uid : Int
  gid : Int
  rdev : Nat
  size : Int
  blksize : Nat
  blocks : Nat
  mtime : Int
  deriving DecidableEq, Repr

namespace Stat

def isDir (s : Stat) : Bool := s.mode &&& sIfmt == sIfdir

def isChr (s : Stat) : Bool := s.mode &&& sIfmt == sIfchr

def isBlk (s : Stat) : Bool := s.mode &&& sIfmt == sIfblk

def isReg (s : Stat) : Bool := s.mode &&& sIfmt == sIfreg

end Stat

/-- A registered device: its read function answers with its return value and the
bytes it put into the buffer. -/
inductive Device where
  | char (read : Nat → Int × List UInt8) (write : List UInt8 → Int)
  | block (read : Option (Nat → Int → Nat → Int × List UInt8))
      (write : Option (List UInt8 → Int)) (blksize : Nat → Nat)

structure Dirent where
  ino : Nat
  mode : Nat
  name : List UInt8
  deriving DecidableEq, Repr

structure World (ι : Type) where
  deviceLookup : Nat → Option Device
  instances : ι

/-- `struct VFSFSType`.  `readDirectory` answers with an entry, or with nothing at the
end of the directory. -/
structure FSType (ι : Type) where
  used : Bool
  name : String
  mount : World ι → Nat → ι × Outcome (Nat × Nat)
  stat : World ι → Nat → Nat → List UInt8 → Outcome Stat
  statInode : World ι → Nat → Nat → Outcome Stat
  read : World ι → Nat → Nat → Nat → Int → Outcome (Int × List UInt8)
  readDirectory : World ι → Nat → Nat → Int → Outcome (Option Dirent)

structure MountPoint where
  isUsed : Bool
  openFiles : Int
  dev : Nat
  inode : Nat
  mountedFs : Nat
  mountedInstance : Nat
  mountedDev : Nat
  mountedIno : Nat

/-- `struct VFSFileEntry`.  `data` is the first word of the union: the mount of a
file, the number of a device. -/
structure FileEntry where
  isUsed : Bool
  isDevice : Bool
  read : Bool
  write : Bool
  directory : Bool
  unsupported : Bool
  pos : Int
  ref : Int
  mode : Nat
  data : Nat
  inode : Nat

end TrollOS.Vfs

/-- The tables of the virtual file system and what its drivers see. -/
structure TrollOS.Vfs (ι : Type) where
  fsType : Nat → Vfs.FSType ι
  mount : Nat → Vfs.MountPoint
  file : Nat → Vfs.FileEntry
  world : Vfs.World ι

namespace TrollOS.Vfs

open TrollOS.Lib

variable {ι : Type}

/-- `_alloc_file`: the first free entry. -/
def allocFile (v : Vfs ι) : Option Nat :=
  (List.range maxGlobalFiles).find? fun i => !(v.file i).isUsed

/-- `_extract_component`: how far it read, and the component. -/
def extractComponent (str : List UInt8) : Nat × List UInt8 :=
  let component := (str.take nameMax).takeWhile (· != slash)
  if component.length < str.length then (component.length + 1, component)
  else (component.length, component)

def isMountpoint (v : Vfs ι) (dev ino : Nat) : Option Nat :=
  (List.range maxMountPoints).find? fun i =>
    (v.mount i).isUsed && (v.mount i).dev == dev && (v.mount i).inode == ino

/-- The first loop of `_resolv_ino`: the entry mounted on `/`. -/
def rootMount (v : Vfs ι) : Option Nat := v.isMountpoint allOnes allOnes

/-- `cur_fsi` and `dir`; `cur_fs` is always the file system mounted at `cur_fsi`. -/
structure Place where
  mount : Nat
  dir : Nat
  deriving DecidableEq, Repr

def stat (v : Vfs ι) (at' : Place) (name : List UInt8) : Outcome Stat :=
  (v.fsType (v.mount at'.mount).mountedFs).stat v.world (v.mount at'.mount).mountedInstance
    at'.dir name

/-- Where a found node leads: to the file system mounted on it, or to itself. -/
def cross (v : Vfs ι) (at' : Place) (s : Stat) : Place :=
  match v.isMountpoint s.dev s.ino with
  | some mp => ⟨mp, (v.mount mp).mountedIno⟩
  | none => ⟨at'.mount, s.ino⟩

/-- One round of the loop of `_resolv_ino`, but for the extraction. -/
def enter (v : Vfs ι) (at' : Place) (name : List UInt8) : Outcome Place :=
  (v.stat at' name).andThen fun s =>
    if (v.isMountpoint s.dev s.ino).isSome || s.isDir then .value (v.cross at' s)
    else .error (-enotdir)

/-- The loop of `_resolv_ino` and the lookup after it, with `c` extracted and
`rest` still to read.  The jump to `done` inside the loop is never taken: the loop's
own condition says that there is more to read. -/
def resolvLoop (v : Vfs ι) : Nat → Place → List UInt8 → List UInt8 → Outcome Place
  | _, at', c, [] => (v.stat at' c).andThen fun s => .value ⟨at'.mount, s.ino⟩
  | 0, _, _, _ :: _ => .hang
  | fuel + 1, at', c, char :: rest =>
      (v.enter at' c).andThen fun next =>
        resolvLoop v fuel next (extractComponent (char :: rest)).2
          ((char :: rest).drop (extractComponent (char :: rest)).1)

/-- `_resolv_ino`: the mount and the inode. -/
def resolvIno (v : Vfs ι) (path : List UInt8) (link : Nat) : Outcome Place :=
  if 32 ≤ link then .error (-emlink)
  else
    match path with
    | [] => .error (-einval)
    | first :: tail =>
        if first ≠ slash then .error (-enoent)
        else
          match v.rootMount with
          | none => .error (-enoent)
          | some root =>
              v.resolvLoop path.length ⟨root, 0⟩ (extractComponent tail).2
                ((tail.drop (extractComponent tail).1).dropWhile (· == slash))

def vfsStat (v : Vfs ι) (path : List UInt8) : Outcome (Nat × Stat) :=
  (v.resolvIno path 0).andThen fun found =>
    ((v.fsType (v.mount found.mount).mountedFs).statInode v.world
      (v.mount found.mount).mountedInstance found.dir).andThen fun s => .value (found.mount, s)

def setFile (v : Vfs ι) (fd : Nat) (entry : FileEntry) : Vfs ι :=
  { v with file := fun i => if i = fd then entry else v.file i }

def setMount (v : Vfs ι) (i : Nat) (entry : MountPoint) : Vfs ι :=
  { v with mount := fun j => if j = i then entry else v.mount j }

def addOpenFile (v : Vfs ι) (i : Nat) : Vfs ι :=
  v.setMount i { v.mount i with openFiles := (v.mount i).openFiles + 1 }

/-- The entry `vfs_open` fills in over the old one. -/
def openedEntry (old : FileEntry) (mp : Nat) (s : Stat) : FileEntry :=
  let device := s.isBlk || s.isChr
  { old with
    isUsed := true
    mode := s.mode
    isDevice := device
    read := true
    write := device
    unsupported := false
    directory := !device && s.isDir
    pos := 0
    inode := s.ino
    data := if device then s.rdev else mp
    ref := 1 }

/-- `vfs_open`; nothing reads `flags`. -/
def vfsOpen (v : Vfs ι) (path : List UInt8) : Outcome Nat × Vfs ι :=
  match v.vfsStat path with
  | .error errno => (.error errno, v)
  | .hang => (.hang, v)
  | .value (mp, s) =>
      match v.allocFile with
      | none => (.error (-emfile), v)
      | some fd => (.value fd, (v.setFile fd (openedEntry (v.file fd) mp s)).addOpenFile mp)

def advance (v : Vfs ι) (fd : Nat) (result : Int × List UInt8) : (Int × List UInt8) × Vfs ι :=
  if 0 < result.1 then
    (result, v.setFile fd { v.file fd with pos := (v.file fd).pos + result.1 })
  else (result, v)

/-- `vfs_read` of an entry of the table; `none`: the driver never returns. -/
def readFile (v : Vfs ι) (fd count : Nat) : Option ((Int × List UInt8) × Vfs ι) :=
  let entry := v.file fd
  if !entry.isUsed then some ((-ebadf, []), v)
  else if entry.isDevice then
    match v.world.deviceLookup entry.data with
    | none => some ((-enodev, []), v)
    | some (.char read _) => some (read count, v)
    | some (.block none _ _) => some ((-enosys, []), v)
    | some (.block (some read) _ _) => some (v.advance fd (read entry.data entry.pos count))
  else if entry.directory then some ((-eisdir, []), v)
  else if !entry.read then some ((-eacces, []), v)
  else
    match (v.fsType (v.mount entry.data).mountedFs).read v.world
        (v.mount entry.data).mountedInstance entry.inode count entry.pos with
    | .value result => some (v.advance fd result)
    | .error errno => some ((errno, []), v)
    | .hang => none

/-- `vfs_read`: the return value and the bytes put into the buffer.  The check lets -1
through, and what stands before the table is read as an entry: `none`. -/
def vfsRead (v : Vfs ι) (fd : Int) (count : Nat) : Option ((Int × List UInt8) × Vfs ι) :=
  if fd < -1 ∨ (maxGlobalFiles : Int) ≤ fd then some ((-ebadf, []), v)
  else if fd < 0 then none
  else v.readFile fd.toNat count

/-- `vfs_write`, which looks at no bound.  `none`: the device is not there and the code
follows the null pointer. -/
def vfsWrite (v : Vfs ι) (fd : Nat) (bytes : List UInt8) : Option Int :=
  if !(v.file fd).isDevice then some (-eperm)
  else
    match v.world.deviceLookup (v.file fd).data with
    | none => none
    | some (.block _ (some write) _) => some (write bytes)
    | some (.block _ none _) => some (-enosys)
    | some (.char _ write) => some (write bytes)

def vfsTell (v : Vfs ι) (fd : Nat) : Int := (v.file fd).pos

/-- `vfs_seek`.  When the driver cannot find the node its size is what the stack held,
`garbage`. -/
def vfsSeek (v : Vfs ι) (fd : Nat) (offset : Int) (whence : Int) (garbage : Int) :
    Int × Vfs ι :=
  let entry := v.file fd
  if whence = 0 then (0, v.setFile fd { entry with pos := offset })
  else if whence = 1 then (0, v.setFile fd { entry with pos := entry.pos + offset })
  else if whence = 2 then
    let size :=
      match (v.fsType (v.mount entry.data).mountedFs).statInode v.world
          (v.mount entry.data).mountedInstance entry.inode with
      | .value s => s.size
      | _ => garbage
    (0, v.setFile fd { entry with pos := size + offset })
  else (-einval, v)

/-- The loop of `vfs_read_directory`, with `found` entries stored so far: it never moves
the position. -/
def readEntries (v : Vfs ι) (entry : FileEntry) : Nat → List Dirent → Outcome (List Dirent)
  | 0, found => .value found
  | dirs + 1, found =>
      ((v.fsType (v.mount entry.data).mountedFs).readDirectory v.world
          (v.mount entry.data).mountedInstance entry.inode entry.pos).andThen fun result =>
        match result with
        | none => .value found
        | some de => readEntries v entry dirs (found ++ [de])

/-- `vfs_read_directory`: the entries stored; their number is the return value. -/
def vfsReadDirectory (v : Vfs ι) (fd : Int) (dirs : Nat) : Outcome (List Dirent) :=
  if fd < 0 ∨ (maxGlobalFiles : Int) ≤ fd then .error (-ebadf)
  else if (v.file fd.toNat).isDevice then .error (-enotdir)
  else if !(v.file fd.toNat).directory then .error (-enotdir)
  else v.readEntries (v.file fd.toNat) dirs []

/-- `vfs_open_device`; `inode` becomes -1. -/
def vfsOpenDevice (v : Vfs ι) (device : Nat) : Outcome Nat × Vfs ι :=
  match v.allocFile with
  | none => (.error (-emfile), v)
  | some fd =>
      (.value fd, v.setFile fd
        { v.file fd with
          isUsed := true
          mode := 0
          read := true
          unsupported := false
          directory := false
          pos := 0
          inode := allOnes
          isDevice := true
          data := device
          write := true
          ref := 1 })

/-- `vfs_close`: the last reference gives the entry back and takes one from the mount
whose index is the first word of the union. -/
def vfsClose (v : Vfs ι) (fd : Int) : Int × Vfs ι :=
  if fd < 0 ∨ (maxGlobalFiles : Int) ≤ fd then (-ebadf, v)
  else
    let entry := v.file fd.toNat
    if entry.ref - 1 = 0 then
      let closed := v.setFile fd.toNat { entry with ref := entry.ref - 1, isUsed := false }
      (0, closed.setMount entry.data
        { v.mount entry.data with openFiles := (v.mount entry.data).openFiles - 1 })
    else (0, v.setFile fd.toNat { entry with ref := entry.ref - 1 })

/-- The slot of a registered file system, the first search of `vfs_mount`. -/
def findType (v : Vfs ι) (fs : String) : Option Nat :=
  (List.range maxFileSystems).find? fun i => (v.fsType i).used && (v.fsType i).name == fs

def freeMount (v : Vfs ι) : Option Nat :=
  (List.range maxMountPoints).find? fun i => !(v.mount i).isUsed

/-- The node to mount on is written down before the driver is asked: its device and
inode, or the mark of the root. -/
def claimMount (v : Vfs ι) (i : Nat) (path : List UInt8) : Outcome (Vfs ι) :=
  if path = [slash] then
    .value (v.setMount i { v.mount i with dev := allOnes, inode := allOnes })
  else
    (v.vfsStat path).andThen fun (parent, s) =>
      .value ((v.setMount i { v.mount i with dev := s.dev, inode := s.ino }).addOpenFile parent)

/-- What a driver's `_mount` leaves in the world. -/
def withInstances (v : Vfs ι) (instances : ι) : Vfs ι :=
  { v with world := { v.world with instances } }

/-- The end of `vfs_mount`: the driver mounts, and the entry is filled in. -/
def completeMount (v : Vfs ι) (type i dev : Nat) : Outcome Unit × Vfs ι :=
  let asked := (v.fsType type).mount v.world dev
  let after := v.withInstances asked.1
  match asked.2 with
  | .error errno => (.error errno, after)
  | .hang => (.hang, after)
  | .value (number, ino) =>
      (.value (), after.setMount i
        { after.mount i with
          mountedInstance := number
          mountedIno := ino
          mountedDev := dev
          mountedFs := type
          openFiles := 0
          isUsed := true })

def vfsMount (v : Vfs ι) (dev : Nat) (path : List UInt8) (fs : String) : Outcome Unit × Vfs ι :=
  match v.findType fs with
  | none => (.error (-einval), v)
  | some type =>
      match v.freeMount with
      | none => (.error (-enomem), v)
      | some i =>
          match v.claimMount i path with
          | .error errno => (.error errno, v)
          | .hang => (.hang, v)
          | .value claimed => claimed.completeMount type i dev

end TrollOS.Vfs
