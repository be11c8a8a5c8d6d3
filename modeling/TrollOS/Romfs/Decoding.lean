import TrollOS.Romfs.Contents
import TrollOS.Romfs.Paths
import TrollOS.Romfs.Mounting

/-!
# Decoding a volume

From the state the kernel boots in a volume is mounted on `/`, and every path of the tree opens with
the type and the size of its item and reads as its bytes.  `MAKE_INT` is an `int`: the size of a file
from 2 ^ 31 bytes on comes out negative.
-/

namespace TrollOS.Romfs

open TrollOS.Lib Vfs

/-- Nothing is mounted, romfs is registered with an instance left, a file can be opened, and the
device has the image. -/
structure Boot (v : Vfs Instances) (stale : ByteMem) (dev : Nat) (image : Image) : Prop where
  type : ∃ type, v.findType "romfs" = some type ∧ v.fsType type = fsType stale
  unmounted : ∀ i, (v.mount i).isUsed = false
  free : ∃ q, freeInstance v.world.instances = some q
  file : ∃ fd, v.allocFile = some fd
  device : ∃ d, v.world.deviceLookup dev = some d ∧ Serves d image

/-! ## Mounting -/

section Mounting

variable {image : Image} {label : List UInt8} {entries : Entries} {w : World Instances} {stale : ByteMem} {dev q : Nat}

/-- What is in front of the root's first node belongs to the image. -/
theorem Image.Volume.front (volume : image.Volume label entries) : 16 + label.length < image.len := by
  obtain ⟨next, info, node, -⟩ := volume.root
  have inside := node.inside
  unfold Image.rootOffset paddedLength at inside
  omega

/-- `fs_romfs_mount` of a volume. -/
theorem mount_volume (device : ∃ d, w.deviceLookup dev = some d ∧ Serves d image)
    (volume : image.Volume label entries) (free : freeInstance w.instances = some q) :
    ∃ instances, mount stale w dev = (instances, .value (q, 0)) ∧ (instances q).device = dev ∧
      (instances q).rootInode = Image.rootOffset label / 16 := by
  have front := volume.front
  have ends := volume.labelEnds
  obtain ⟨buff, read, bytes⟩ := readUnaligned_device device (Nat.zero_le _) (show 512 ≠ 0 by decide) stale
  rw [Int.natCast_zero] at read
  have shown : ∀ i, i ≤ 16 + label.length → buff i = image.bytes i := by
    intro i within
    rw [bytes i (by omega) (by omega), Nat.zero_add]
  have isMagic : cString buff 0 8 = magic := by
    refine cString_eq (by decide) (Nat.le_refl 8) fun i small _ => ?_
    rw [Nat.zero_add, shown i (by omega)]
    exact volume.magic i small
  have text : ∀ i ≤ label.length, buff (16 + i) = label.getD i 0 := by
    intro i within
    rw [shown _ (by omega)]
    refine volume.written i ?_
    unfold paddedLength
    omega
  have nul : (List.range' 16 496).find? (fun i => buff i == 0) = some (16 + label.length) := by
    rw [List.find?_range'_eq_some]
    refine ⟨?_, ?_, fun j above below => ?_⟩
    · rw [text _ (Nat.le_refl _), List.getD_eq_getElem?_getD, List.getElem?_eq_none (Nat.le_refl _)]
      rfl
    · exact List.mem_range'_1.2 ⟨Nat.le_add_right 16 _, ends⟩
    · obtain ⟨i, rfl⟩ := Nat.exists_eq_add_of_le above
      have inside : i < label.length := Nat.lt_of_add_lt_add_left below
      rw [text i (Nat.le_of_lt inside), List.getD_eq_getElem?_getD, List.getElem?_eq_getElem inside, Option.getD_some,
        Bool.not_eq_true', beq_eq_false_iff_ne]
      exact fun zero => volume.labelText (zero ▸ List.getElem_mem inside)
  have place := (Image.rootOffset_bounds volume).2.2.1
  unfold mount
  rw [free]
  dsimp only
  rw [read]
  dsimp only
  rw [if_neg (not_not_intro isMagic), nul]
  refine ⟨_, rfl, ?_, ?_⟩
  · rw [Function.update_self, Function.update_self]
  · rw [Function.update_self, place]
    dsimp only
    omega

def rootEntry (type number ino dev : Nat) : MountPoint where
  isUsed := true
  openFiles := 0
  dev := allOnes
  inode := allOnes
  mountedFs := type
  mountedInstance := number
  mountedDev := dev
  mountedIno := ino

theorem completeMount_eq {ι : Type} {v : Vfs ι} {instances : ι} {type number ino : Nat}
    (accepted : (v.fsType type).mount v.world dev = (instances, .value (number, ino))) (k : Nat) :
    v.completeMount type k dev =
      (.value (), (v.withInstances instances).setMount k
        { v.mount k with
          mountedInstance := number
          mountedIno := ino
          mountedDev := dev
          mountedFs := type
          openFiles := 0
          isUsed := true }) := by
  unfold completeMount
  dsimp only
  rw [accepted]
  rfl

/-- `vfs_mount` on `/` fills in one entry. -/
theorem vfsMount_root {ι : Type} {v : Vfs ι} {fs : String} {instances : ι} {type k number ino : Nat}
    (named : v.findType fs = some type) (free : v.freeMount = some k)
    (accepted : (v.fsType type).mount v.world dev = (instances, .value (number, ino))) :
    ∃ after, v.vfsMount dev [slash] fs = (.value (), after) ∧ after.fsType = v.fsType ∧ after.file = v.file ∧
      after.world = { v.world with instances } ∧ after.mount k = rootEntry type number ino dev ∧
        ∀ j, j ≠ k → after.mount j = v.mount j := by
  let claimed := v.setMount k { v.mount k with dev := allOnes, inode := allOnes }
  have claim : v.claimMount k [slash] = .value claimed := if_pos rfl
  have filled : claimed.mount k = { v.mount k with dev := allOnes, inode := allOnes } := if_pos rfl
  have completed := completeMount_eq (show (claimed.fsType type).mount claimed.world dev = _ from accepted) k
  rw [filled] at completed
  refine ⟨(claimed.withInstances instances).setMount k (rootEntry type number ino dev), ?_, rfl, rfl, rfl, if_pos rfl,
    fun j other => ?_⟩
  · unfold vfsMount
    rw [named]
    dsimp only
    rw [free]
    dsimp only
    rw [claim]
    exact completed
  · exact (setMount_other _ _ other).trans (setMount_other v _ other)

/-- The only entry in use is that of `/`. -/
theorem only_root {ι : Type} {v : Vfs ι} {type number ino k : Nat} (small : k < maxMountPoints)
    (entry : v.mount k = rootEntry type number ino dev) (unused : ∀ i, i ≠ k → (v.mount i).isUsed = false) :
    v.rootMount = some k ∧ ∀ dev ino, ino ≠ allOnes → v.isMountpoint dev ino = none := by
  have only : ∀ devNo ino i, ((v.mount i).isUsed && (v.mount i).dev == devNo && (v.mount i).inode == ino) = true →
      i = k ∧ ino = allOnes := by
    intro devNo ino i holds
    rw [Bool.and_eq_true, Bool.and_eq_true, beq_iff_eq, beq_iff_eq] at holds
    obtain ⟨⟨used, -⟩, isIno⟩ := holds
    by_cases here : i = k
    · rw [here, entry] at isIno
      exact ⟨here, isIno.symm⟩
    · rw [unused i here] at used
      cases used
  constructor
  · unfold rootMount
    cases found : v.isMountpoint allOnes allOnes with
    | some i =>
        unfold isMountpoint at found
        have holds := List.find?_some found
        rw [(only _ _ i holds).1]
    | none =>
        have missing := List.find?_eq_none.1 found k (List.mem_range.2 small)
        rw [entry] at missing
        exact absurd rfl missing
  · intro devNo ino other
    exact List.find?_eq_none.2 fun i _ holds => other (only devNo ino i holds).2

/-- A volume is mounted on `/`. -/
theorem Boot.mounts {v : Vfs Instances} (boot : Boot v stale dev image) (volume : image.Volume label entries) :
    ∃ k after, v.vfsMount dev [slash] "romfs" = (.value (), after) ∧
      OnRoot after k stale image (Image.rootOffset label) ∧ ∃ fd, after.allocFile = some fd := by
  obtain ⟨type, named, driver⟩ := boot.type
  obtain ⟨q, instance'⟩ := boot.free
  obtain ⟨fd, file⟩ := boot.file
  obtain ⟨k, free⟩ : ∃ k, v.freeMount = some k := by
    cases found : v.freeMount with
    | some k => exact ⟨k, rfl⟩
    | none =>
        have used := List.find?_eq_none.1 found 0 (by decide)
        rw [boot.unmounted 0] at used
        exact absurd rfl used
  obtain ⟨instances, accepted, device, rootInode⟩ := @mount_volume _ _ _ _ stale _ _ boot.device volume instance'
  have asked : (v.fsType type).mount v.world dev = (instances, .value (q, 0)) := by
    rw [driver]
    exact accepted
  obtain ⟨after, mounted, types, files, world, entry, others⟩ := vfsMount_root named free asked
  obtain ⟨large, fits, -⟩ := Image.rootOffset_bounds volume
  have unused : ∀ i, i ≠ k → (after.mount i).isUsed = false := by
    intro i other
    rw [others i other]
    exact boot.unmounted i
  obtain ⟨root, single⟩ := only_root (freeMount_free free).1 entry unused
  refine ⟨k, after, mounted, ⟨root, single, ?_, ?_, ?_, large, fits⟩, fd, ?_⟩
  · rw [entry, types]
    exact driver
  · rw [entry, world]
    obtain ⟨d, found, serves⟩ := boot.device
    refine ⟨⟨d, ?_, serves⟩, ?_⟩
    · change v.world.deviceLookup (instances q).device = some d
      rw [device]
      exact found
    · change (instances q).rootInode < 4294967296
      rw [rootInode]
      omega
  · rw [entry, world]
    exact rootInode
  · unfold allocFile
    rw [files]
    exact file

end Mounting

/-! ## Opening -/

/-- A stat with the type and the size of an item. -/
def Item.Shown (s : Stat) : Item → Prop
  | .file content => s.isReg = true ∧ s.size = content.length
  | .dir _ => s.isDir = true ∧ s.size = 0

/-- What a descriptor of an item is good for. -/
def Item.Readable (v : Vfs Instances) (fd : Nat) : Item → Prop
  | .file content => ReadsAs v fd content
  | .dir _ => (v.file fd).directory = true

/-- The paths of a tree open with the type and the size of what they lead to, and the files read as
their bytes; a path with a last step that is missing is refused, and so is one that goes on below a
file. -/
structure Decodes (v : Vfs Instances) (entries : Entries) : Prop where
  opens : ∀ names item, (Item.dir entries).find names = some item →
    ∃ mp s fd after, v.vfsStat (pathOf names) = .value (mp, s) ∧ item.Shown s ∧
      v.vfsOpen (pathOf names) = (.value fd, after) ∧ (after.file fd).mode = s.mode ∧ item.Readable after fd
  missing : ∀ names name inner, (Item.dir entries).find names = some (.dir inner) → StepName name →
    (names = [] → name ≠ Image.dot) → inner.lookup name = none →
      v.vfsStat (pathOf (names ++ [name])) = .error (-enoent)
  below : ∀ names others content, (Item.dir entries).find names = some (.file content) → others ≠ [] →
    (∀ name ∈ others, StepName name) → v.vfsStat (pathOf (names ++ others)) = .error (-enotdir)

section Opening

variable {v : Vfs Instances} {image : Image} {label : List UInt8} {entries : Entries} {stale : ByteMem}
  {k fd start node : Nat} {item : Item} {content : List UInt8} {s : Stat}

/-- `vfs_open` where `vfs_stat` finds something and an entry is free. -/
theorem vfsOpen_found {ι : Type} {v : Vfs ι} {path : List UInt8} (answer : v.vfsStat path = .value (k, s))
    (free : v.allocFile = some fd) :
    v.vfsOpen path = (.value fd, (v.setFile fd (openedEntry (v.file fd) k s)).addOpenFile k) := by
  unfold vfsOpen
  rw [answer]
  dsimp only
  rw [free]

theorem isReg_plain (isReg : s.isReg = true) : s.isBlk = false ∧ s.isChr = false ∧ s.isDir = false := by
  have type := beq_iff_eq.1 isReg
  unfold Stat.isBlk Stat.isChr Stat.isDir
  rw [type]
  decide

theorem isDir_plain (isDir : s.isDir = true) : s.isBlk = false ∧ s.isChr = false := by
  have type := beq_iff_eq.1 isDir
  unfold Stat.isBlk Stat.isChr
  rw [type]
  decide

/-- The descriptor of a file, just opened. -/
theorem OnRoot.opened_file (on : OnRoot v k stale image start) (found : image.Found start node (.file content))
    (isReg : s.isReg = true) (ino : s.ino = relative (start / 16) node) (inTable : fd < maxGlobalFiles)
    (fits : content.length < 2147483648) :
    FileAt ((v.setFile fd (openedEntry (v.file fd) k s)).addOpenFile k) fd 0 content stale image start := by
  obtain ⟨notBlk, notChr, notDir⟩ := isReg_plain isReg
  have entry : ((v.setFile fd (openedEntry (v.file fd) k s)).addOpenFile k).file fd = openedEntry (v.file fd) k s :=
    if_pos rfl
  have plain : (s.isBlk || s.isChr) = false := by
    rw [notBlk, notChr]
    rfl
  have data : (openedEntry (v.file fd) k s).data = k := by
    unfold openedEntry
    dsimp only
    rw [plain]
    rfl
  have mount : (((v.setFile fd (openedEntry (v.file fd) k s)).addOpenFile k).mount k) =
      { v.mount k with openFiles := (v.mount k).openFiles + 1 } := if_pos rfl
  constructor
  · exact inTable
  · rw [entry]
    rfl
  · rw [entry]
    exact plain
  · rw [entry]
    unfold openedEntry
    dsimp only
    rw [notDir, Bool.and_false]
  · rw [entry]
    rfl
  · rw [entry, data, mount]
    exact on.driver
  · rw [entry, data, mount]
    exact on.mounted
  · refine ⟨node, ?_, found⟩
    rw [entry, data, mount]
    change absolute (v.world.instances (v.mount k).mountedInstance).rootInode s.ino = node
    rw [on.rootInode, ino]
    exact absolute_relative (by have fits := on.fits; omega) found.small
  · rw [entry]
    rfl
  · exact Nat.zero_le _
  · exact fits

theorem Item.Described.shown (described : item.Described s)
    (fits : ∀ content, item = .file content → content.length < 2147483648) : item.Shown s := by
  cases item with
  | file content => exact ⟨described.1, described.2.trans (if_pos (fits content rfl))⟩
  | dir inner => exact described

/-- A size that comes out right has no sign bit. -/
theorem shown_small (described : (Item.file content).Described s) (shown : (Item.file content).Shown s) :
    content.length < 2147483648 := by
  have same : toInt32 content.length = content.length := described.2.symm.trans shown.2
  unfold toInt32 at same
  split at same
  · assumption
  · omega

/-- An item found by `vfs_stat` is opened as what it is. -/
theorem OnRoot.opens (on : OnRoot v k stale image start) {path : List UInt8} (free : v.allocFile = some fd)
    (answer : v.vfsStat path = .value (k, s)) (described : item.Described s)
    (fits : ∀ content, item = .file content → content.length < 2147483648 ∧
      ∃ node, s.ino = relative (start / 16) node ∧ image.Found start node (.file content)) :
    ∃ mp s fd after, v.vfsStat path = .value (mp, s) ∧ item.Shown s ∧
      v.vfsOpen path = (.value fd, after) ∧ (after.file fd).mode = s.mode ∧ item.Readable after fd := by
  have entry : ((v.setFile fd (openedEntry (v.file fd) k s)).addOpenFile k).file fd = openedEntry (v.file fd) k s :=
    if_pos rfl
  refine ⟨k, s, fd, _, answer, described.shown fun content same => (fits content same).1, vfsOpen_found answer free, ?_, ?_⟩
  · rw [entry]
    rfl
  · cases item with
    | file content =>
        obtain ⟨small, node, ino, found⟩ := fits content rfl
        exact (on.opened_file found described.1 ino (allocFile_free free).1 small).readsAs
    | dir inner =>
        obtain ⟨notBlk, notChr⟩ := isDir_plain described.1
        change (((v.setFile fd (openedEntry (v.file fd) k s)).addOpenFile k).file fd).directory = true
        rw [entry]
        unfold openedEntry
        dsimp only
        rw [notBlk, notChr, described.1]
        rfl

theorem Image.Volume.stands (volume : image.Volume label entries) :
    Stands image (Image.rootOffset label) 0 [Image.dot] entries := by
  refine ⟨volume.lists, volume.named, fun name member front => ?_, fun name member => ?_⟩
  · rw [List.mem_singleton.1 front] at member
    exact volume.other member
  · rw [List.mem_singleton.1 member]
    decide

/-- The tree of a volume on `/` is decoded if no file is too long. -/
theorem OnRoot.decodes (on : OnRoot v k stale image (Image.rootOffset label)) (volume : image.Volume label entries)
    (free : v.allocFile = some fd)
    (small : ∀ names content, (Item.dir entries).find names = some (.file content) → content.length < 2147483648) :
    Decodes v entries := by
  have stands := volume.stands
  constructor
  · intro names item found
    by_cases more : names = []
    · obtain rfl := more
      obtain rfl := Option.some.inj found
      obtain ⟨s, answer, described⟩ := on.stat_root volume
      exact on.opens free answer described fun content same => by cases same
    · obtain ⟨node, s, answer, ino, described, here⟩ := on.stat_found stands more found
      refine on.opens free answer described fun content same => ?_
      rw [same] at found here
      exact ⟨small names content found, node, ino, here⟩
  · intro names name inner found step other missing
    exact on.stat_missing stands found step (fun root member => other root (List.mem_singleton.1 member)) missing
  · intro names others content found more steps
    exact on.stat_below stands found more steps

/-- Only then the sizes are right. -/
theorem OnRoot.sizes (on : OnRoot v k stale image (Image.rootOffset label)) (volume : image.Volume label entries)
    (decodes : Decodes v entries) {names : List (List UInt8)}
    (found : (Item.dir entries).find names = some (.file content)) : content.length < 2147483648 := by
  have more : names ≠ [] := by
    rintro rfl
    cases found
  obtain ⟨mp, s, fd, after, answer, shown, -⟩ := decodes.opens names _ found
  obtain ⟨node, s', answer', ino, described, -⟩ := on.stat_found volume.stands more found
  obtain ⟨-, rfl⟩ := Prod.mk.inj (Outcome.value.inj (answer.symm.trans answer'))
  exact shown_small described shown

end Opening

/-! ## One file -/

/-- The small volume with its full size, and a file of so many times 2 ^ 24 zeros. -/
def fileVolume (top : UInt8) : Image where
  len := 96 + 16777216 * top.toNat
  bytes := fun i => if i = 8 ∨ i = 72 then top else if i = 11 then 96 else smallVolume.bytes i

def zeros (top : UInt8) : List UInt8 := List.replicate (16777216 * top.toNat) 0

def oneFile (content : List UInt8) : Entries := .file [97] content .nil

def bootOn (image : Image) : Vfs Instances := { bootTables with world := ⟨fun _ => some (memblk image), fun _ => ⟨false, 0, 0⟩⟩ }

theorem bootOn_boot (image : Image) : Boot (bootOn image) (fun _ => 0) 0 image where
  type := ⟨0, show bootTables.findType "romfs" = some 0 by decide +kernel, rfl⟩
  unmounted _ := rfl
  free := ⟨0, rfl⟩
  file := ⟨0, show bootTables.allocFile = some 0 by decide +kernel⟩
  device := ⟨_, rfl, memblk_serves image⟩

theorem oneFile_found (content : List UInt8) : (Item.dir (oneFile content)).find [[97]] = some (.file content) := rfl

theorem fileVolume_bytes (top : UInt8) {i : Nat} (size : i ≠ 72) (total : i < 8 ∨ 12 ≤ i) :
    (fileVolume top).bytes i = smallVolume.bytes i := by
  have notTop : ¬ (i = 8 ∨ i = 72) := by omega
  have notLow : ¬ i = 11 := by omega
  exact (if_neg notTop).trans (if_neg notLow)

theorem smallVolume_zero {i : Nat} (beyond : 96 ≤ i) : smallVolume.bytes i = 0 := by
  have short : magic.length ≤ i := Nat.le_trans (by decide) beyond
  unfold smallVolume smallImage
  dsimp only
  rw [List.getD_eq_getElem?_getD, List.getElem?_eq_none short, Option.getD_none, if_neg (by omega), if_neg (by omega),
    if_neg (by omega), if_neg (by omega), if_neg (by omega)]

/-- A name with its padding that the small volume has as well. -/
theorem fileVolume_name (top : UInt8) {offset : Nat} {name : List UInt8} (behind : 12 ≤ offset)
    (apart : offset + paddedLength name ≤ 72 ∨ 72 < offset) (written : smallVolume.HasName offset name) :
    (fileVolume top).HasName offset name := by
  intro i inside
  rw [fileVolume_bytes top (by omega) (by omega)]
  exact written i inside

theorem fileVolume_word (top : UInt8) {p : Nat} (behind : 12 ≤ p) (apart : p + 4 ≤ 72) :
    (fileVolume top).bytes.load32 p = smallVolume.bytes.load32 p :=
  ByteMem.load32_congr fun x above below => fileVolume_bytes top (by omega) (by omega)

theorem fileVolume_root (top : UInt8) : (fileVolume top).HasNode 32 Image.dot 1 64 32 0 where
  aligned := by decide
  nextAligned := by decide
  first := ⟨9, by decide, rfl, (fileVolume_word top (by decide) (by decide)).trans (by decide)⟩
  second := (fileVolume_word top (by decide) (by decide)).trans (by decide)
  third := (fileVolume_word top (by decide) (by decide)).trans (by decide)
  written := fileVolume_name top (by decide) (by decide) (by unfold Image.HasName; decide)
  inside := Nat.le_trans (show 32 + 16 + paddedLength Image.dot + 0 ≤ 96 by decide) (Nat.le_add_right 96 _)
  small := by decide

theorem fileVolume_size (top : UInt8) : (fileVolume top).bytes.load32 72 = 16777216 * top.toNat := by
  have first : (fileVolume top).bytes 72 = top := by
    unfold fileVolume
    dsimp only
    rw [if_pos (Or.inr rfl)]
  have others : ∀ i < 3, smallVolume.bytes (73 + i) = 0 := by decide
  have zero : ∀ i < 3, (fileVolume top).bytes (73 + i) = 0 := fun i small => by
    rw [fileVolume_bytes top (by omega) (by omega)]
    exact others i small
  unfold ByteMem.load32
  rw [first, show 72 + 1 = 73 + 0 from rfl, show 72 + 2 = 73 + 1 from rfl, show 72 + 3 = 73 + 2 from rfl,
    zero 0 (by decide), zero 1 (by decide), zero 2 (by decide), Nat.mul_comm top.toNat]
  rfl

theorem fileVolume_file (top : UInt8) : (fileVolume top).HasNode 64 [97] 2 0 0 (16777216 * top.toNat) where
  aligned := by decide
  nextAligned := by decide
  first := ⟨2, by decide, rfl, (fileVolume_word top (by decide) (by decide)).trans (by decide)⟩
  second := (fileVolume_word top (by decide) (by decide)).trans (by decide)
  third := fileVolume_size top
  written := fileVolume_name top (by decide) (by decide) (by unfold Image.HasName; decide)
  inside := Nat.le_refl _
  small := by
    have bound := top.toNat_lt
    change 96 + 16777216 * top.toNat < 4294967296
    omega

theorem fileVolume_volume (top : UInt8) : (fileVolume top).Volume [] (oneFile (zeros top)) := by
  have magicBytes : ∀ i < 8, smallVolume.bytes i = magic.getD i 0 := by decide
  constructor
  · intro i small
    rw [fileVolume_bytes top (by omega) (Or.inl small)]
    exact magicBytes i small
  · exact fileVolume_name top (by decide) (by decide) (by unfold Image.HasName; decide)
  · exact List.not_mem_nil
  · decide
  · have size : (zeros top).length = 16777216 * top.toNat := List.length_replicate
    refine ⟨64, 32, fileVolume_root top, by decide, 0, 0, ?_, fun i inside => ?_, rfl⟩
    · rw [size]
      exact fileVolume_file top
    · have zero : (zeros top)[i] = 0 := List.getElem_replicate inside
      rw [zero]
      exact (fileVolume_bytes top (by omega) (by omega)).trans (smallVolume_zero (Nat.le_add_right 96 i))
  · exact ⟨⟨by decide, by decide, by decide, by decide⟩, List.not_mem_nil, trivial⟩
  · exact fun member => absurd (List.mem_singleton.1 member) (by decide)

/-! ## A small tree -/

def smallTree : Entries := .dir [100] (.file [102] [97, 98, 99] .nil) (.file [97] [104, 105] .nil)

def wordBytes (w : UInt8) : List UInt8 := [0, 0, 0, w]
def nameBytes (name : List UInt8) : List UInt8 := name ++ List.replicate (16 - name.length) 0

def treeBytes : List UInt8 :=
  magic ++ wordBytes 192 ++ wordBytes 0 ++ nameBytes [] ++
    (wordBytes 73 ++ wordBytes 32 ++ wordBytes 0 ++ wordBytes 0 ++ nameBytes Image.dot) ++
    (wordBytes 153 ++ wordBytes 96 ++ wordBytes 0 ++ wordBytes 0 ++ nameBytes [100]) ++
    (wordBytes 2 ++ wordBytes 0 ++ wordBytes 3 ++ wordBytes 0 ++ nameBytes [102] ++ nameBytes [97, 98, 99]) ++
    (wordBytes 2 ++ wordBytes 0 ++ wordBytes 2 ++ wordBytes 0 ++ nameBytes [97] ++ nameBytes [104, 105])

def treeVolume : Image := ⟨192, fun i => treeBytes.getD i 0⟩

theorem treeVolume_root : treeVolume.HasNode 32 Image.dot 1 64 32 0 where
  aligned := by decide
  nextAligned := by decide
  first := ⟨9, by decide, rfl, by decide⟩
  second := by decide
  third := by decide
  written := by unfold Image.HasName; decide
  inside := by decide
  small := by decide

theorem treeVolume_directory : treeVolume.HasNode 64 [100] 1 144 96 0 where
  aligned := by decide
  nextAligned := by decide
  first := ⟨9, by decide, rfl, by decide⟩
  second := by decide
  third := by decide
  written := by unfold Image.HasName; decide
  inside := by decide
  small := by decide

theorem treeVolume_below : treeVolume.HasNode 96 [102] 2 0 0 3 where
  aligned := by decide
  nextAligned := by decide
  first := ⟨2, by decide, rfl, by decide⟩
  second := by decide
  third := by decide
  written := by unfold Image.HasName; decide
  inside := by decide
  small := by decide

theorem treeVolume_beside : treeVolume.HasNode 144 [97] 2 0 0 2 where
  aligned := by decide
  nextAligned := by decide
  first := ⟨2, by decide, rfl, by decide⟩
  second := by decide
  third := by decide
  written := by unfold Image.HasName; decide
  inside := by decide
  small := by decide

theorem smallTree_named : smallTree.Named :=
  ⟨⟨by decide, by decide, by decide, by decide⟩, by decide,
    ⟨⟨by decide, by decide, by decide, by decide⟩, by decide, trivial⟩,
    ⟨by decide, by decide, by decide, by decide⟩, by decide, trivial⟩

theorem treeVolume_volume : treeVolume.Volume [] smallTree where
  magic := by decide
  written := by unfold Image.HasName; decide
  labelText := List.not_mem_nil
  labelEnds := by decide
  root := ⟨64, 32, treeVolume_root, by decide, 144, 96, treeVolume_directory, by decide,
    ⟨by decide, 0, 0, treeVolume_below, by decide, rfl⟩,
    ⟨by decide, 0, 0, treeVolume_beside, by decide, rfl⟩⟩
  named := smallTree_named
  other := by decide

/-- A volume can be mounted on `/` and is decoded there exactly when every file of the tree is shorter
than 2 ^ 31 bytes. -/
theorem decodes_iff {v : Vfs Instances} {stale : ByteMem} {dev : Nat} {image : Image} {label : List UInt8}
    {entries : Entries} (boot : Boot v stale dev image) (volume : image.Volume label entries) :
    (∃ after, v.vfsMount dev [slash] "romfs" = (.value (), after) ∧ Decodes after entries) ↔
      ∀ names content, (Item.dir entries).find names = some (.file content) → content.length < 2147483648 := by
  obtain ⟨k, after, mounted, on, fd, free⟩ := boot.mounts volume
  constructor
  · rintro ⟨after', mounted', decodes⟩ names content found
    obtain ⟨-, rfl⟩ := Prod.mk.inj (mounted.symm.trans mounted')
    exact on.sizes volume decodes found
  · exact fun small => ⟨after, mounted, on.decodes volume free small⟩

theorem decodes_tree :
    (∃ after, (bootOn treeVolume).vfsMount 0 [slash] "romfs" = (.value (), after) ∧ Decodes after smallTree) ↔
      ∀ names content, (Item.dir smallTree).find names = some (.file content) → content.length < 2147483648 :=
  decodes_iff (bootOn_boot treeVolume) treeVolume_volume

/-- A file of 2 ^ 31 bytes has a negative size. -/
theorem long_file_negative :
    ¬ ∀ (v : Vfs Instances) (stale : ByteMem) (dev : Nat) (image : Image) (label : List UInt8) (entries : Entries),
      Boot v stale dev image → image.Volume label entries →
        ∃ after, v.vfsMount dev [slash] "romfs" = (.value (), after) ∧ Decodes after entries := by
  intro claim
  have boot := bootOn_boot (fileVolume 128)
  have volume := fileVolume_volume 128
  obtain ⟨k, after, mounted, on, -⟩ := boot.mounts volume
  obtain ⟨after', mounted', decodes⟩ := claim _ _ 0 _ [] _ boot volume
  obtain ⟨-, rfl⟩ := Prod.mk.inj (mounted.symm.trans mounted')
  have small := on.sizes volume decodes (oneFile_found (zeros 128))
  have size : (zeros 128).length = 2147483648 := List.length_replicate
  rw [size] at small
  exact Nat.lt_irrefl _ small

end TrollOS.Romfs
