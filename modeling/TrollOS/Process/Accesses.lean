import TrollOS.Device.Registry
import TrollOS.Lib.Traced
import TrollOS.Process.Files
import TrollOS.Romfs.Model

/-!
# Accesses to the tables

The entry points of the file system over again, as computations that write down every
table they index and every pointer they follow.  A table can only be read through one of
the accessors, so nothing is left out of the trace; behind an access that leaves its table
nothing is known.  The only driver is romfs, which looks for the device below an instance.
-/

namespace TrollOS.Process

open TrollOS.Lib TrollOS.Vfs
open Romfs (Instances Instance maxRomfs)

/-- An index into one of the tables, or a pointer followed. -/
inductive Access where
  | handler (i : Nat)
  | processFile (i : Int)
  | file (i : Int)
  | mount (i : Nat)
  | fsType (i : Nat)
  | romfs (i : Nat)
  | device (i : Nat)
  | pointer (present : Bool)
  deriving DecidableEq, Repr

def syscalls : Nat := 19

def Access.Inside : Access → Prop
  | handler i => i < syscalls
  | processFile i => 0 ≤ i ∧ i < maxProcessFiles
  | file i => 0 ≤ i ∧ i < maxGlobalFiles
  | mount i => i < maxMountPoints
  | fsType i => i < maxFileSystems
  | romfs i => i < maxRomfs
  | device i => i < deviceMax
  | pointer present => present = true

abbrev Touching := Traced Access

namespace Touching

section Accessors

variable {α : Type}

def file (v : Vfs Instances) (fd : Int) : Touching FileEntry :=
  .yields (.file fd) (if 0 ≤ fd ∧ fd < maxGlobalFiles then some (v.file fd.toNat) else none)

def mount (v : Vfs Instances) (i : Nat) : Touching MountPoint :=
  .yields (.mount i) (if i < maxMountPoints then some (v.mount i) else none)

def romfs (v : Vfs Instances) (i : Nat) : Touching Instance :=
  .yields (.romfs i) (if i < maxRomfs then some (v.world.instances i) else none)

def deviceLookup (v : Vfs Instances) (dev : Nat) : Touching (Option Vfs.Device) :=
  .yields (.device (major dev)) (if major dev < deviceMax then some (v.world.deviceLookup dev) else none)

def follow (pointer : Option α) : Touching α := .yields (.pointer pointer.isSome) pointer

/-- A handler of `_vfs_type[i]`: all are null until a type is registered. -/
def driver (v : Vfs Instances) (i : Nat) : Touching (FSType Instances) := do
  let type ← .yields (.fsType i) (if i < maxFileSystems then some (v.fsType i) else none)
  follow (if type.used then some type else none)

end Accessors

/-- The read function of a block device; what another device has in its place is none. -/
def blockRead : Vfs.Device → Option (Nat → Int → Nat → Int × List UInt8)
  | .block read _ _ => read
  | .char _ _ => none

/-- `_read_unaligned`, as often as an operation calls it, goes to the device of the
instance. -/
def below (v : Vfs Instances) (inst : Instance) : Touching Unit := do
  let device ← follow (← deviceLookup v inst.device)
  let _ ← follow (blockRead device)
  pure ()

section Calls

variable {α : Type}

/-- A handler is called for the file system at `mp`, and `reads` from the device. -/
def call (v : Vfs Instances) (mp : Nat) (reads : Bool)
    (handler : FSType Instances → World Instances → Nat → α) : Touching α := do
  let entry ← mount v mp
  let type ← driver v entry.mountedFs
  let inst ← romfs v entry.mountedInstance
  if reads then
    below v inst
    pure (handler type v.world entry.mountedInstance)
  else pure (handler type v.world entry.mountedInstance)

end Calls

def allocFile (v : Vfs Instances) : Touching (Option Nat) :=
  .scan (fun i => .file i) (fun i => !(v.file i).isUsed) (List.range maxGlobalFiles)

def isMountpoint (v : Vfs Instances) (dev ino : Nat) : Touching (Option Nat) :=
  .scan .mount (fun i => (v.mount i).isUsed && (v.mount i).dev == dev && (v.mount i).inode == ino)
    (List.range maxMountPoints)

def stat (v : Vfs Instances) (at' : Place) (name : List UInt8) : Touching (Outcome Stat) :=
  call v at'.mount true fun type w inst => type.stat w inst at'.dir name

/-- One round of the loop of `_resolv_ino`. -/
def enter (v : Vfs Instances) (at' : Place) (name : List UInt8) : Touching (Outcome Place) :=
  (stat v at' name).andThen fun s => do
    match ← isMountpoint v s.dev s.ino with
    | some mp =>
        let entry ← mount v mp
        pure (.value ⟨mp, entry.mountedIno⟩)
    | none => pure (if s.isDir then .value ⟨at'.mount, s.ino⟩ else .error (-enotdir))

def resolvLoop (v : Vfs Instances) : Nat → Place → List UInt8 → List UInt8 → Touching (Outcome Place)
  | _, at', c, [] => (stat v at' c).andThen fun s => pure (.value ⟨at'.mount, s.ino⟩)
  | 0, _, _, _ :: _ => pure .hang
  | fuel + 1, at', c, char :: rest =>
      (enter v at' c).andThen fun next =>
        resolvLoop v fuel next (extractComponent (char :: rest)).2
          ((char :: rest).drop (extractComponent (char :: rest)).1)

def resolvIno (v : Vfs Instances) (path : List UInt8) (link : Nat) : Touching (Outcome Place) :=
  if 32 ≤ link then pure (.error (-emlink))
  else
    match path with
    | [] => pure (.error (-einval))
    | first :: tail =>
        if first ≠ slash then pure (.error (-enoent))
        else do
          match ← isMountpoint v allOnes allOnes with
          | none => pure (.error (-enoent))
          | some root =>
              resolvLoop v path.length ⟨root, 0⟩ (extractComponent tail).2
                ((tail.drop (extractComponent tail).1).dropWhile (· == slash))

def vfsStat (v : Vfs Instances) (path : List UInt8) : Touching (Outcome (Nat × Stat)) :=
  (resolvIno v path 0).andThen fun found =>
    (call v found.mount true fun type w inst => type.statInode w inst found.dir).andThen fun s =>
      pure (.value (found.mount, s))

def vfsOpen (v : Vfs Instances) (path : List UInt8) : Touching (Outcome Nat × Vfs Instances) := do
  match ← vfsStat v path with
  | .error errno => pure (.error errno, v)
  | .hang => pure (.hang, v)
  | .value (mp, s) =>
      match ← allocFile v with
      | none => pure (.error (-emfile), v)
      | some fd =>
          let entry ← file v fd
          let at' ← mount v mp
          pure (.value fd,
            (v.setFile fd (openedEntry entry mp s)).setMount mp
              { at' with openFiles := at'.openFiles + 1 })

def vfsTell (v : Vfs Instances) (fd : Int) : Touching Int := do
  let entry ← file v fd
  pure entry.pos

def vfsSeek (v : Vfs Instances) (fd offset whence garbage : Int) : Touching (Int × Vfs Instances) :=
  if whence = 0 then do
    let entry ← file v fd
    pure (0, v.setFile fd.toNat { entry with pos := offset })
  else if whence = 1 then do
    let entry ← file v fd
    pure (0, v.setFile fd.toNat { entry with pos := entry.pos + offset })
  else if whence = 2 then do
    let entry ← file v fd
    let found ← call v entry.data true fun type w inst => type.statInode w inst entry.inode
    let size := match found with
      | .value s => s.size
      | _ => garbage
    pure (0, v.setFile fd.toNat { entry with pos := size + offset })
  else pure (-einval, v)

def vfsWrite (v : Vfs Instances) (fd : Int) (bytes : List UInt8) : Touching Int := do
  let entry ← file v fd
  if !entry.isDevice then pure (-eperm)
  else
    match ← follow (← deviceLookup v entry.data) with
    | .block _ (some write) _ => pure (write bytes)
    | .block _ none _ => pure (-enosys)
    | .char _ write => pure (write bytes)

def vfsRead (v : Vfs Instances) (fd : Int) (count : Nat) :
    Touching ((Int × List UInt8) × Vfs Instances) :=
  if fd < -1 ∨ (maxGlobalFiles : Int) ≤ fd then pure ((-ebadf, []), v)
  else do
    let entry ← file v fd
    if !entry.isUsed then pure ((-ebadf, []), v)
    else if entry.isDevice then
      match ← deviceLookup v entry.data with
      | none => pure ((-enodev, []), v)
      | some (.char read _) => pure (read count, v)
      | some (.block none _ _) => pure ((-enosys, []), v)
      | some (.block (some read) _ _) => pure (v.advance fd.toNat (read entry.data entry.pos count))
    else if entry.directory then pure ((-eisdir, []), v)
    else if !entry.read then pure ((-eacces, []), v)
    else
      match ← call v entry.data true fun type w inst => type.read w inst entry.inode count entry.pos with
      | .value result => pure (v.advance fd.toNat result)
      | .error errno => pure ((errno, []), v)
      | .hang => .stuck

/-- The loop of `vfs_read_directory`; before the start of the directory romfs reads nothing. -/
def readEntries (v : Vfs Instances) (entry : FileEntry) :
    Nat → List Dirent → Touching (Outcome (List Dirent))
  | 0, found => pure (.value found)
  | dirs + 1, found =>
      (call v entry.data (decide (0 ≤ entry.pos)) fun type w inst =>
          type.readDirectory w inst entry.inode entry.pos).andThen fun result =>
        match result with
        | none => pure (.value found)
        | some de => readEntries v entry dirs (found ++ [de])

def vfsReadDirectory (v : Vfs Instances) (fd : Int) (dirs : Nat) : Touching (Outcome (List Dirent)) :=
  if fd < 0 ∨ (maxGlobalFiles : Int) ≤ fd then pure (.error (-ebadf))
  else do
    let entry ← file v fd
    if entry.isDevice then pure (.error (-enotdir))
    else if !entry.directory then pure (.error (-enotdir))
    else readEntries v entry dirs []

def vfsClose (v : Vfs Instances) (fd : Int) : Touching (Int × Vfs Instances) :=
  if fd < 0 ∨ (maxGlobalFiles : Int) ≤ fd then pure (-ebadf, v)
  else do
    let entry ← file v fd
    if entry.ref - 1 = 0 then
      let at' ← mount v entry.data
      pure (0,
        (v.setFile fd.toNat { entry with ref := entry.ref - 1, isUsed := false }).setMount entry.data
          { at' with openFiles := at'.openFiles - 1 })
    else pure (0, v.setFile fd.toNat { entry with ref := entry.ref - 1 })

/-! ## The same answers -/

section Agrees

variable {α : Type} {v : Vfs Instances}

theorem file_agrees (v : Vfs Instances) (fd : Int) : (file v fd).Agrees (some (v.file fd.toNat)) := by
  intro entry ran
  obtain ⟨-, same⟩ := Option.ite_none_right_eq_some.mp ran
  exact same

theorem mount_agrees (v : Vfs Instances) (i : Nat) : (mount v i).Agrees (some (v.mount i)) := by
  intro entry ran
  obtain ⟨-, same⟩ := Option.ite_none_right_eq_some.mp ran
  exact same

theorem romfs_agrees (v : Vfs Instances) (i : Nat) : (romfs v i).Agrees (some (v.world.instances i)) := by
  intro inst ran
  obtain ⟨-, same⟩ := Option.ite_none_right_eq_some.mp ran
  exact same

theorem deviceLookup_agrees (v : Vfs Instances) (dev : Nat) :
    (deviceLookup v dev).Agrees (some (v.world.deviceLookup dev)) := by
  intro device ran
  obtain ⟨-, same⟩ := Option.ite_none_right_eq_some.mp ran
  exact same

theorem follow_agrees (pointer : Option α) : (follow pointer).Agrees pointer := fun _ same => same

theorem driver_agrees (v : Vfs Instances) (i : Nat) : (driver v i).Agrees (some (v.fsType i)) := by
  intro type ran
  obtain ⟨type', known, ran⟩ := Traced.bind_some ran
  obtain ⟨-, same⟩ := Option.ite_none_right_eq_some.mp known
  obtain ⟨-, same'⟩ := Option.ite_none_right_eq_some.mp ran
  exact same.trans same'

theorem call_agrees (v : Vfs Instances) (mp : Nat) (reads : Bool)
    (handler : FSType Instances → World Instances → Nat → α) :
    (call v mp reads handler).Agrees
      (some (handler (v.fsType (v.mount mp).mountedFs) v.world (v.mount mp).mountedInstance)) := by
  refine (mount_agrees v mp).bind ((driver_agrees v _).bind ((romfs_agrees v _).bind ?_))
  cases reads with
  | false => exact Traced.Agrees.pure _
  | true =>
      intro a ran
      obtain ⟨-, -, same⟩ := Traced.bind_some ran
      exact same

theorem allocFile_agrees (v : Vfs Instances) : (allocFile v).Agrees (some v.allocFile) :=
  Traced.Agrees.scan _ _ _

theorem isMountpoint_agrees (v : Vfs Instances) (dev ino : Nat) :
    (isMountpoint v dev ino).Agrees (some (v.isMountpoint dev ino)) := Traced.Agrees.scan _ _ _

theorem stat_agrees (v : Vfs Instances) (at' : Place) (name : List UInt8) :
    (stat v at' name).Agrees (some (v.stat at' name)) := call_agrees v _ _ _

theorem enter_agrees (v : Vfs Instances) (at' : Place) (name : List UInt8) :
    (enter v at' name).Agrees (some (v.enter at' name)) := by
  refine (stat_agrees v at' name).andThen fun s _ => ?_
  refine (isMountpoint_agrees v s.dev s.ino).bind ?_
  unfold Vfs.cross
  cases v.isMountpoint s.dev s.ino with
  | some mp => exact (mount_agrees v mp).bind (Traced.Agrees.pure _)
  | none => exact Traced.Agrees.pure _

theorem resolvLoop_agrees (v : Vfs Instances) (fuel : Nat) (at' : Place) (c rest : List UInt8) :
    (resolvLoop v fuel at' c rest).Agrees (some (v.resolvLoop fuel at' c rest)) := by
  induction fuel generalizing at' c rest with
  | zero =>
      cases rest with
      | nil => exact (stat_agrees v at' c).andThen fun s _ => Traced.Agrees.pure _
      | cons char rest => exact Traced.Agrees.pure _
  | succ fuel ih =>
      cases rest with
      | nil => exact (stat_agrees v at' c).andThen fun s _ => Traced.Agrees.pure _
      | cons char rest => exact (enter_agrees v at' c).andThen fun next _ => ih next _ _

theorem resolvIno_answers (v : Vfs Instances) (path : List UInt8) (link : Nat) :
    (resolvIno v path link).Agrees (some (v.resolvIno path link)) := by
  unfold resolvIno Vfs.resolvIno
  split
  · exact Traced.Agrees.pure _
  · cases path with
    | nil => exact Traced.Agrees.pure _
    | cons first tail =>
        dsimp only
        split
        · exact Traced.Agrees.pure _
        · refine (isMountpoint_agrees v allOnes allOnes).bind ?_
          unfold Vfs.rootMount
          cases v.isMountpoint allOnes allOnes with
          | none => exact Traced.Agrees.pure _
          | some root => exact resolvLoop_agrees v _ _ _ _

theorem vfsStat_agrees (v : Vfs Instances) (path : List UInt8) :
    (vfsStat v path).Agrees (some (v.vfsStat path)) :=
  (resolvIno_answers v path 0).andThen fun found _ =>
    (call_agrees v found.mount true _).andThen fun s _ => Traced.Agrees.pure _

theorem vfsOpen_agrees (v : Vfs Instances) (path : List UInt8) :
    (vfsOpen v path).Agrees (some (v.vfsOpen path)) := by
  refine (vfsStat_agrees v path).bind ?_
  unfold Vfs.vfsOpen
  rcases v.vfsStat path with ⟨mp, s⟩ | errno | _
  · refine (allocFile_agrees v).bind ?_
    dsimp only
    cases v.allocFile with
    | none => exact Traced.Agrees.pure _
    | some fd => exact (file_agrees v fd).bind ((mount_agrees v mp).bind (Traced.Agrees.pure _))
  · exact Traced.Agrees.pure _
  · exact Traced.Agrees.pure _

theorem vfsTell_agrees (v : Vfs Instances) (fd : Int) :
    (vfsTell v fd).Agrees (some (v.vfsTell fd.toNat)) := (file_agrees v fd).bind (Traced.Agrees.pure _)

theorem vfsSeek_agrees (v : Vfs Instances) (fd offset whence garbage : Int) :
    (vfsSeek v fd offset whence garbage).Agrees
      (some (v.vfsSeek fd.toNat offset whence garbage)) := by
  unfold vfsSeek Vfs.vfsSeek
  dsimp only
  split
  · exact (file_agrees v fd).bind (Traced.Agrees.pure _)
  · split
    · exact (file_agrees v fd).bind (Traced.Agrees.pure _)
    · split
      · exact (file_agrees v fd).bind ((call_agrees v _ true _).bind (Traced.Agrees.pure _))
      · exact Traced.Agrees.pure _

theorem vfsWrite_agrees (v : Vfs Instances) (fd : Int) (bytes : List UInt8) :
    (vfsWrite v fd bytes).Agrees (v.vfsWrite fd.toNat bytes) := by
  refine (file_agrees v fd).bind ?_
  unfold Vfs.vfsWrite
  split
  · exact Traced.Agrees.pure _
  · refine (deviceLookup_agrees v _).bind ?_
    cases found : v.world.deviceLookup (v.file fd.toNat).data with
    | none => exact fun _ wrong => nomatch wrong
    | some device =>
        refine (follow_agrees (some device)).bind ?_
        rcases device with ⟨read, write⟩ | ⟨read, _ | write, blksize⟩
        · exact Traced.Agrees.pure _
        · exact Traced.Agrees.pure _
        · exact Traced.Agrees.pure _

theorem vfsRead_agrees (v : Vfs Instances) (fd : Int) (count : Nat) :
    (vfsRead v fd count).Agrees (v.vfsRead fd count) := by
  unfold vfsRead Vfs.vfsRead
  split
  · exact Traced.Agrees.pure _
  · by_cases below : fd < 0
    · intro answer ran
      obtain ⟨entry, wrong, -⟩ := Traced.bind_some ran
      have outside : ¬ (0 ≤ fd ∧ fd < maxGlobalFiles) := fun inside => absurd below (Int.not_lt.mpr inside.1)
      exact nomatch (if_neg outside).symm.trans wrong
    · rw [if_neg below]
      refine (file_agrees v fd).bind ?_
      unfold Vfs.readFile
      dsimp only
      split
      · exact Traced.Agrees.pure _
      · split
        · refine (deviceLookup_agrees v _).bind ?_
          rcases v.world.deviceLookup (v.file fd.toNat).data with
            _ | ⟨read, write⟩ | ⟨_ | read, write, blksize⟩
          · exact Traced.Agrees.pure _
          · exact Traced.Agrees.pure _
          · exact Traced.Agrees.pure _
          · exact Traced.Agrees.pure _
        · split
          · exact Traced.Agrees.pure _
          · split
            · exact Traced.Agrees.pure _
            · refine (call_agrees v _ true _).bind ?_
              rcases (v.fsType (v.mount (v.file fd.toNat).data).mountedFs).read v.world
                (v.mount (v.file fd.toNat).data).mountedInstance (v.file fd.toNat).inode count
                (v.file fd.toNat).pos with result | errno | _
              · exact Traced.Agrees.pure _
              · exact Traced.Agrees.pure _
              · exact Traced.Agrees.stuck _

theorem readEntries_agrees (v : Vfs Instances) (entry : FileEntry) (dirs : Nat) (found : List Dirent) :
    (readEntries v entry dirs found).Agrees (some (v.readEntries entry dirs found)) := by
  induction dirs generalizing found with
  | zero => exact Traced.Agrees.pure _
  | succ dirs ih =>
      refine (call_agrees v entry.data _ _).andThen fun result _ => ?_
      cases result with
      | none => exact Traced.Agrees.pure _
      | some de => exact ih _

theorem vfsReadDirectory_agrees (v : Vfs Instances) (fd : Int) (dirs : Nat) :
    (vfsReadDirectory v fd dirs).Agrees (some (v.vfsReadDirectory fd dirs)) := by
  unfold vfsReadDirectory Vfs.vfsReadDirectory
  split
  · exact Traced.Agrees.pure _
  · refine (file_agrees v fd).bind ?_
    split
    · exact Traced.Agrees.pure _
    · split
      · exact Traced.Agrees.pure _
      · exact readEntries_agrees v _ dirs []

theorem vfsClose_agrees (v : Vfs Instances) (fd : Int) :
    (vfsClose v fd).Agrees (some (v.vfsClose fd)) := by
  unfold vfsClose Vfs.vfsClose
  split
  · exact Traced.Agrees.pure _
  · refine (file_agrees v fd).bind ?_
    dsimp only
    split
    · exact (mount_agrees v _).bind (Traced.Agrees.pure _)
    · exact Traced.Agrees.pure _

end Agrees

/-! ## Inside the tables -/

/-- A mount whose file system can be called: a registered type, and an instance on a block
device of the registry that can be read. -/
structure Served (v : Vfs Instances) (mp : Nat) : Prop where
  inTable : mp < maxMountPoints
  fsInTable : (v.mount mp).mountedFs < maxFileSystems
  registered : (v.fsType (v.mount mp).mountedFs).used = true
  instInTable : (v.mount mp).mountedInstance < maxRomfs
  major : major (v.world.instances (v.mount mp).mountedInstance).device < deviceMax
  device : ∃ device, v.world.deviceLookup (v.world.instances (v.mount mp).mountedInstance).device = some device ∧
    (blockRead device).isSome = true

/-- Every mount in use. -/
def Serving (v : Vfs Instances) : Prop := ∀ mp, v.Live mp → Served v mp

def InTable (fd : Int) : Prop := 0 ≤ fd ∧ fd < maxGlobalFiles

section Inside

variable {α : Type} {v : Vfs Instances} {fd : Int} {mp : Nat}

theorem file_inside (inTable : InTable fd) : (file v fd).Within Access.Inside :=
  Traced.Within.yields (show (Access.file fd).Inside from inTable) _

theorem mount_inside (inTable : mp < maxMountPoints) : (mount v mp).Within Access.Inside :=
  Traced.Within.yields (show (Access.mount mp).Inside from inTable) _

theorem deviceLookup_inside {dev : Nat} (inTable : major dev < deviceMax) :
    (deviceLookup v dev).Within Access.Inside :=
  Traced.Within.yields (show (Access.device (major dev)).Inside from inTable) _

theorem follow_inside {pointer : Option α} (present : pointer.isSome = true) :
    (follow pointer).Within Access.Inside :=
  Traced.Within.yields (show (Access.pointer pointer.isSome).Inside from present) _

theorem driver_inside {i : Nat} (inTable : i < maxFileSystems) (registered : (v.fsType i).used = true) :
    (driver v i).Within Access.Inside := by
  refine (Traced.Within.yields (show (Access.fsType i).Inside from inTable) _).bind fun type known =>
    follow_inside ?_
  obtain ⟨-, same⟩ := Option.ite_none_right_eq_some.mp known
  obtain rfl := Option.some.inj same
  rw [registered]
  rfl

theorem Served.below_inside (served : Served v mp) :
    (below v (v.world.instances (v.mount mp).mountedInstance)).Within Access.Inside := by
  obtain ⟨device, found, readable⟩ := served.device
  refine (deviceLookup_inside served.major).bind_known (deviceLookup_agrees v _) ?_
  rw [found]
  refine (follow_inside rfl).bind_known (follow_agrees (some device)) ?_
  exact (follow_inside readable).bind fun _ _ => Traced.Within.pure _

theorem Served.call_inside (served : Served v mp) (reads : Bool)
    (handler : FSType Instances → World Instances → Nat → α) :
    (call v mp reads handler).Within Access.Inside := by
  refine (mount_inside served.inTable).bind_known (mount_agrees v mp) ?_
  refine (driver_inside served.fsInTable served.registered).bind_known (driver_agrees v _) ?_
  refine (Traced.Within.yields (show (Access.romfs _).Inside from served.instInTable) _).bind_known
    (romfs_agrees v _) ?_
  cases reads with
  | false => exact Traced.Within.pure _
  | true => exact served.below_inside.bind fun _ _ => Traced.Within.pure _

theorem allocFile_inside (v : Vfs Instances) : (allocFile v).Within Access.Inside :=
  Traced.Within.scan fun i member => ⟨Int.natCast_nonneg i, Int.ofNat_lt.mpr (List.mem_range.mp member)⟩

theorem isMountpoint_inside (v : Vfs Instances) (dev ino : Nat) :
    (isMountpoint v dev ino).Within Access.Inside :=
  Traced.Within.scan fun _ member => List.mem_range.mp member

theorem enter_inside (serving : Serving v) {at' : Place} (live : v.Live at'.mount) (name : List UInt8) :
    (enter v at' name).Within Access.Inside := by
  refine ((serving _ live).call_inside true _).andThen (stat_agrees v at' name) fun s _ => ?_
  refine (isMountpoint_inside v s.dev s.ino).bind_known (isMountpoint_agrees v s.dev s.ino) ?_
  cases found : v.isMountpoint s.dev s.ino with
  | some mp => exact (mount_inside (isMountpoint_live found).1).bind fun _ _ => Traced.Within.pure _
  | none => exact Traced.Within.pure _

theorem resolvLoop_inside (serving : Serving v) (fuel : Nat) {at' : Place} (live : v.Live at'.mount)
    (c rest : List UInt8) : (resolvLoop v fuel at' c rest).Within Access.Inside := by
  have last (at' : Place) (live : v.Live at'.mount) (c : List UInt8) :
      ((stat v at' c).andThen fun s => pure (.value (⟨at'.mount, s.ino⟩ : Place))).Within Access.Inside :=
    ((serving _ live).call_inside true _).andThen (stat_agrees v at' c) fun s _ => Traced.Within.pure _
  induction fuel generalizing at' c rest with
  | zero =>
      cases rest with
      | nil => exact last at' live c
      | cons char rest => exact Traced.Within.pure _
  | succ fuel ih =>
      cases rest with
      | nil => exact last at' live c
      | cons char rest =>
          exact (enter_inside serving live c).andThen (enter_agrees v at' c) fun next entered =>
            ih (enter_live live entered) _ _

theorem resolvIno_inside (serving : Serving v) (path : List UInt8) (link : Nat) :
    (resolvIno v path link).Within Access.Inside := by
  unfold resolvIno
  split
  · exact Traced.Within.pure _
  · cases path with
    | nil => exact Traced.Within.pure _
    | cons first tail =>
        dsimp only
        split
        · exact Traced.Within.pure _
        · refine (isMountpoint_inside v allOnes allOnes).bind_known (isMountpoint_agrees v allOnes allOnes) ?_
          cases found : v.isMountpoint allOnes allOnes with
          | none => exact Traced.Within.pure _
          | some root => exact resolvLoop_inside serving _ (isMountpoint_live found) _ _

theorem vfsStat_inside (serving : Serving v) (path : List UInt8) :
    (vfsStat v path).Within Access.Inside := by
  refine (resolvIno_inside serving path 0).andThen (resolvIno_answers v path 0) fun found resolved => ?_
  exact ((serving _ (resolvIno_live resolved)).call_inside true _).andThen (call_agrees v _ true _)
    fun s _ => Traced.Within.pure _

theorem vfsOpen_inside (serving : Serving v) (path : List UInt8) :
    (vfsOpen v path).Within Access.Inside := by
  refine (vfsStat_inside serving path).bind_known (vfsStat_agrees v path) ?_
  cases found : v.vfsStat path with
  | error errno => exact Traced.Within.pure _
  | hang => exact Traced.Within.pure _
  | value result =>
      refine (allocFile_inside v).bind_known (allocFile_agrees v) ?_
      cases free : v.allocFile with
      | none => exact Traced.Within.pure _
      | some fd =>
          have inTable : InTable (fd : Int) :=
            ⟨Int.natCast_nonneg fd, Int.ofNat_lt.mpr (allocFile_free free).1⟩
          exact (file_inside inTable).bind fun _ _ =>
            (mount_inside (vfsStat_live found).1).bind fun _ _ => Traced.Within.pure _

theorem vfsTell_inside (inTable : InTable fd) : (vfsTell v fd).Within Access.Inside :=
  (file_inside inTable).bind fun _ _ => Traced.Within.pure _

theorem vfsSeek_inside {whence : Int} (offset garbage : Int)
    (inTable : whence = 0 ∨ whence = 1 ∨ whence = 2 → InTable fd)
    (served : whence = 2 → Served v (v.file fd.toNat).data) :
    (vfsSeek v fd offset whence garbage).Within Access.Inside := by
  unfold vfsSeek
  split
  · next start => exact (file_inside (inTable (Or.inl start))).bind fun _ _ => Traced.Within.pure _
  · split
    · next relative =>
        exact (file_inside (inTable (Or.inr (Or.inl relative)))).bind fun _ _ => Traced.Within.pure _
    · split
      · next fromEnd =>
          refine (file_inside (inTable (Or.inr (Or.inr fromEnd)))).bind_known (file_agrees v fd) ?_
          exact ((served fromEnd).call_inside true _).bind fun _ _ => Traced.Within.pure _
      · exact Traced.Within.pure _

theorem vfsWrite_inside (bytes : List UInt8) (inTable : InTable fd)
    (device : (v.file fd.toNat).isDevice = true → major (v.file fd.toNat).data < deviceMax ∧
      (v.world.deviceLookup (v.file fd.toNat).data).isSome = true) :
    (vfsWrite v fd bytes).Within Access.Inside := by
  refine (file_inside inTable).bind_known (file_agrees v fd) ?_
  cases isDevice : (v.file fd.toNat).isDevice with
  | false => exact Traced.Within.pure _
  | true =>
      obtain ⟨range, registered⟩ := device isDevice
      refine (deviceLookup_inside range).bind_known (deviceLookup_agrees v _) ?_
      refine (follow_inside registered).bind fun device _ => ?_
      rcases device with ⟨read, write⟩ | ⟨read, _ | write, blksize⟩
      · exact Traced.Within.pure _
      · exact Traced.Within.pure _
      · exact Traced.Within.pure _

/-- An entry in use says where it is: on a mount that can be called, or a device of the table. -/
structure Placed (v : Vfs Instances) (entry : FileEntry) : Prop where
  device : entry.isDevice = true → major entry.data < deviceMax
  plain : entry.isDevice = false → Served v entry.data

theorem vfsRead_inside (count : Nat) (notBefore : fd ≠ -1)
    (placed : InTable fd → (v.file fd.toNat).isUsed = true → Placed v (v.file fd.toNat)) :
    (vfsRead v fd count).Within Access.Inside := by
  unfold vfsRead
  split
  · exact Traced.Within.pure _
  · have inTable : InTable fd := ⟨by omega, by omega⟩
    refine (file_inside inTable).bind_known (file_agrees v fd) ?_
    cases used : (v.file fd.toNat).isUsed with
    | false => exact Traced.Within.pure _
    | true =>
        have placed := placed inTable used
        cases isDevice : (v.file fd.toNat).isDevice with
        | true =>
            refine (deviceLookup_inside (placed.device isDevice)).bind fun device _ => ?_
            rcases device with _ | ⟨read, write⟩ | ⟨_ | read, write, blksize⟩
            · exact Traced.Within.pure _
            · exact Traced.Within.pure _
            · exact Traced.Within.pure _
            · exact Traced.Within.pure _
        | false =>
            rw [if_neg (by decide), if_neg (by decide)]
            split
            · exact Traced.Within.pure _
            · split
              · exact Traced.Within.pure _
              · refine ((placed.plain isDevice).call_inside true _).bind fun result _ => ?_
                cases result with
                | value result => exact Traced.Within.pure _
                | error errno => exact Traced.Within.pure _
                | hang => exact Traced.Within.stuck

theorem readEntries_inside {entry : FileEntry} (served : Served v entry.data) (dirs : Nat)
    (found : List Dirent) : (readEntries v entry dirs found).Within Access.Inside := by
  induction dirs generalizing found with
  | zero => exact Traced.Within.pure _
  | succ dirs ih =>
      refine (served.call_inside _ _).andThen (call_agrees v entry.data _ _) fun result _ => ?_
      cases result with
      | none => exact Traced.Within.pure _
      | some de => exact ih _

theorem vfsReadDirectory_inside (dirs : Nat)
    (served : InTable fd → (v.file fd.toNat).isDevice = false → (v.file fd.toNat).directory = true →
      Served v (v.file fd.toNat).data) : (vfsReadDirectory v fd dirs).Within Access.Inside := by
  unfold vfsReadDirectory
  split
  · exact Traced.Within.pure _
  · have inTable : InTable fd := ⟨by omega, by omega⟩
    refine (file_inside inTable).bind_known (file_agrees v fd) ?_
    cases plain : (v.file fd.toNat).isDevice with
    | true => exact Traced.Within.pure _
    | false =>
        cases directory : (v.file fd.toNat).directory with
        | false => exact Traced.Within.pure _
        | true => exact readEntries_inside (served inTable plain directory) dirs []

theorem vfsClose_inside (mounted : InTable fd → (v.file fd.toNat).data < maxMountPoints) :
    (vfsClose v fd).Within Access.Inside := by
  unfold vfsClose
  split
  · exact Traced.Within.pure _
  · have inTable : InTable fd := ⟨by omega, by omega⟩
    refine (file_inside inTable).bind_known (file_agrees v fd) ?_
    split
    · exact (mount_inside (mounted inTable)).bind fun _ _ => Traced.Within.pure _
    · exact Traced.Within.pure _

end Inside

end Touching

end TrollOS.Process
