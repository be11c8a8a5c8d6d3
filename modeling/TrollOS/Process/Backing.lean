import TrollOS.Process.Accesses

/-!
# The file systems behind the files

What holds of the tables of the virtual file system while the kernel mounts, opens, moves
and closes: a mount in use belongs to a registered driver and to an instance on a device
that can be read, and an entry that is no device names a mount in use.
-/

namespace TrollOS.Process

open TrollOS.Lib TrollOS.Vfs
open Romfs (Instances)

namespace System

/-- Only romfs is registered, and the mounts in use are served by instances in use. -/
structure Backed (v : Vfs Instances) : Prop where
  types : ∀ i, (v.fsType i).used = true → ∃ stale, v.fsType i = Romfs.fsType stale
  registry : ∀ dev device, v.world.deviceLookup dev = some device → major dev < deviceMax
  instances : ∀ mp, v.Live mp → (v.world.instances (v.mount mp).mountedInstance).used = true
  serving : Touching.Serving v

/-- The first word of an entry that is no device names a mount in use. -/
def Mounted (v : Vfs Instances) : Prop :=
  ∀ i, (v.file i).isDevice = false → (v.file i).isUsed = true ∨ (v.file i).directory = true →
    v.Live (v.file i).data

section Entries

variable {v v' v'' : Vfs Instances}

/-- Entries that differ in nothing but the position, the count and being closed. -/
def SameEntries (v v' : Vfs Instances) : Prop :=
  ∀ i, (v'.file i).isDevice = (v.file i).isDevice ∧ (v'.file i).directory = (v.file i).directory ∧
    (v'.file i).data = (v.file i).data ∧ ((v'.file i).isUsed = true → (v.file i).isUsed = true)

theorem SameEntries.refl (v : Vfs Instances) : SameEntries v v := fun _ => ⟨rfl, rfl, rfl, id⟩

/-- One entry is replaced by one that says the same. -/
theorem sameEntries_setFile (v : Vfs Instances) (fd : Nat) {entry : FileEntry}
    (device : entry.isDevice = (v.file fd).isDevice)
    (directory : entry.directory = (v.file fd).directory) (data : entry.data = (v.file fd).data)
    (used : entry.isUsed = true → (v.file fd).isUsed = true) :
    SameEntries v (v.setFile fd entry) := by
  intro i
  by_cases same : i = fd
  · subst same
    have here : (v.setFile i entry).file i = entry := if_pos rfl
    rw [here]
    exact ⟨device, directory, data, used⟩
  · have there : (v.setFile fd entry).file i = v.file i := if_neg same
    rw [there]
    exact ⟨rfl, rfl, rfl, id⟩

theorem SameEntries.trans (first : SameEntries v v') (second : SameEntries v' v'') : SameEntries v v'' :=
  fun i =>
    ⟨(second i).1.trans (first i).1, (second i).2.1.trans (first i).2.1,
      (second i).2.2.1.trans (first i).2.2.1, fun used => (first i).2.2.2 ((second i).2.2.2 used)⟩

theorem Mounted.same (mounted : Mounted v) (same : SameEntries v v')
    (live : ∀ mp, v.Live mp → v'.Live mp) : Mounted v' := by
  intro i plain known
  obtain ⟨device, directory, data, used⟩ := same i
  rw [data]
  refine live _ (mounted i (device.symm.trans plain) ?_)
  rcases known with inUse | isDirectory
  · exact Or.inl (used inUse)
  · exact Or.inr (directory.symm.trans isDirectory)

/-- An entry of the table is filled. -/
theorem Mounted.filled (mounted : Mounted v) {fd : Nat} {entry : FileEntry}
    (here : v'.file fd = entry) (others : ∀ i, i ≠ fd → v'.file i = v.file i)
    (live : ∀ mp, v.Live mp → v'.Live mp)
    (right : entry.isDevice = false → v'.Live entry.data) : Mounted v' := by
  intro i plain known
  by_cases same : i = fd
  · rw [same, here] at plain ⊢
    exact right plain
  · rw [others i same] at plain known ⊢
    exact live _ (mounted i plain known)

end Entries

section Mounts

variable {v v' v'' : Vfs Instances}

structure SameMounts (v v' : Vfs Instances) : Prop where
  used : ∀ i, (v'.mount i).isUsed = (v.mount i).isUsed
  fs : ∀ i, (v'.mount i).mountedFs = (v.mount i).mountedFs
  inst : ∀ i, (v'.mount i).mountedInstance = (v.mount i).mountedInstance
  fsType : v'.fsType = v.fsType
  world : v'.world = v.world

theorem SameMounts.refl (v : Vfs Instances) : SameMounts v v :=
  ⟨fun _ => rfl, fun _ => rfl, fun _ => rfl, rfl, rfl⟩

theorem SameMounts.trans (first : SameMounts v v') (second : SameMounts v' v'') : SameMounts v v'' :=
  ⟨fun i => (second.used i).trans (first.used i), fun i => (second.fs i).trans (first.fs i),
    fun i => (second.inst i).trans (first.inst i), second.fsType.trans first.fsType,
    second.world.trans first.world⟩

theorem SameMounts.live (same : SameMounts v v') {mp : Nat} : v'.Live mp ↔ v.Live mp := by
  unfold Vfs.Live
  rw [same.used]

theorem sameMounts_setFile (v : Vfs Instances) (fd : Nat) (entry : FileEntry) :
    SameMounts v (v.setFile fd entry) := ⟨fun _ => rfl, fun _ => rfl, fun _ => rfl, rfl, rfl⟩

theorem sameMounts_setMount (v : Vfs Instances) (mp : Nat) {entry : MountPoint}
    (used : entry.isUsed = (v.mount mp).isUsed) (fs : entry.mountedFs = (v.mount mp).mountedFs)
    (inst : entry.mountedInstance = (v.mount mp).mountedInstance) :
    SameMounts v (v.setMount mp entry) := by
  have here : (v.setMount mp entry).mount mp = entry := if_pos rfl
  have there {i : Nat} (other : i ≠ mp) : (v.setMount mp entry).mount i = v.mount i := if_neg other
  refine ⟨fun i => ?_, fun i => ?_, fun i => ?_, rfl, rfl⟩
  · rcases eq_or_ne i mp with rfl | other
    · rw [here, used]
    · rw [there other]
  · rcases eq_or_ne i mp with rfl | other
    · rw [here, fs]
    · rw [there other]
  · rcases eq_or_ne i mp with rfl | other
    · rw [here, inst]
    · rw [there other]

theorem sameMounts_addOpenFile (v : Vfs Instances) (mp : Nat) : SameMounts v (v.addOpenFile mp) :=
  sameMounts_setMount v mp rfl rfl rfl

theorem Backed.same (backed : Backed v) (same : SameMounts v v') : Backed v' where
  types := by
    rw [same.fsType]
    exact backed.types
  registry := by
    rw [same.world]
    exact backed.registry
  instances := by
    intro mp live
    rw [same.world, same.inst]
    exact backed.instances mp (same.live.mp live)
  serving := by
    intro mp live
    have served := backed.serving mp (same.live.mp live)
    constructor
    · exact served.inTable
    · rw [same.fs]
      exact served.fsInTable
    · rw [same.fs, same.fsType]
      exact served.registered
    · rw [same.inst]
      exact served.instInTable
    · rw [same.inst, same.world]
      exact served.major
    · rw [same.inst, same.world]
      exact served.device

end Mounts

section Steps

variable {v v' : Vfs Instances}

theorem vfsRead_same {fd : Int} {count : Nat} {answer : Int × List UInt8}
    (ran : v.vfsRead fd count = some (answer, v')) : SameEntries v v' ∧ SameMounts v v' := by
  rcases vfsRead_moves ran with rfl | ⟨target, rfl⟩
  · exact ⟨SameEntries.refl v', SameMounts.refl v'⟩
  · exact ⟨sameEntries_setFile v _ rfl rfl rfl id, sameMounts_setFile v _ _⟩

theorem vfsSeek_same (v : Vfs Instances) (fd : Nat) (offset whence garbage : Int) :
    SameEntries v (v.vfsSeek fd offset whence garbage).2 ∧
      SameMounts v (v.vfsSeek fd offset whence garbage).2 := by
  have moved (target : Int) : SameEntries v (v.setFile fd { v.file fd with pos := target }) ∧
      SameMounts v (v.setFile fd { v.file fd with pos := target }) :=
    ⟨sameEntries_setFile v fd rfl rfl rfl id, sameMounts_setFile v fd _⟩
  unfold Vfs.vfsSeek
  dsimp only
  split
  · exact moved offset
  · split
    · exact moved _
    · split
      · exact moved _
      · exact ⟨SameEntries.refl v, SameMounts.refl v⟩

theorem vfsClose_same (v : Vfs Instances) (fd : Int) :
    SameEntries v (v.vfsClose fd).2 ∧ SameMounts v (v.vfsClose fd).2 := by
  unfold Vfs.vfsClose
  split
  · exact ⟨SameEntries.refl v, SameMounts.refl v⟩
  · dsimp only
    split
    · refine ⟨sameEntries_setFile v fd.toNat rfl rfl rfl fun closed => (nomatch closed), ?_⟩
      exact (sameMounts_setFile v fd.toNat _).trans (sameMounts_setMount _ _ rfl rfl rfl)
    · exact ⟨sameEntries_setFile v fd.toNat rfl rfl rfl id, sameMounts_setFile v fd.toNat _⟩

theorem vfsOpen_sameMounts (v : Vfs Instances) (path : List UInt8) :
    SameMounts v (v.vfsOpen path).2 := by
  unfold Vfs.vfsOpen
  split
  · exact SameMounts.refl v
  · exact SameMounts.refl v
  · split
    · exact SameMounts.refl v
    · exact (sameMounts_setFile v _ _).trans (sameMounts_addOpenFile _ _)

theorem Mounted.open (mounted : Mounted v) (path : List UInt8) : Mounted (v.vfsOpen path).2 := by
  have live (mp : Nat) : v.Live mp → (v.vfsOpen path).2.Live mp := (vfsOpen_sameMounts v path).live.mpr
  unfold Vfs.vfsOpen at live ⊢
  cases found : v.vfsStat path with
  | error errno => exact mounted
  | hang => exact mounted
  | value result =>
      obtain ⟨mp, st⟩ := result
      rw [found] at live
      dsimp only at live ⊢
      cases free : v.allocFile with
      | none => exact mounted
      | some fd =>
          rw [free] at live
          refine mounted.filled (if_pos rfl) (fun i other => if_neg other) live fun plain => ?_
          have no_device : (st.isBlk || st.isChr) = false := plain
          have data : (openedEntry (v.file fd) mp st).data = mp := by
            unfold openedEntry
            rw [no_device]
            rfl
          rw [data]
          exact live mp (vfsStat_live found)

theorem vfsOpenDevice_sameMounts (v : Vfs Instances) (device : Nat) :
    SameMounts v (v.vfsOpenDevice device).2 := by
  unfold Vfs.vfsOpenDevice
  split
  · exact SameMounts.refl v
  · exact sameMounts_setFile v _ _

theorem Mounted.openDevice (mounted : Mounted v) (device : Nat) :
    Mounted (v.vfsOpenDevice device).2 := by
  have live (mp : Nat) : v.Live mp → (v.vfsOpenDevice device).2.Live mp :=
    (vfsOpenDevice_sameMounts v device).live.mpr
  unfold Vfs.vfsOpenDevice at live ⊢
  cases free : v.allocFile with
  | none => exact mounted
  | some fd =>
      rw [free] at live
      exact mounted.filled (if_pos rfl) (fun i other => if_neg other) live
        fun plain => (nomatch plain)

end Steps

/-! ## Mounting -/

section Mounting

variable {v claimed : Vfs Instances} {stale : ByteMem} {w : World Instances} {dev number ino : Nat}

/-- romfs leaves the instances in use alone. -/
theorem mount_kept (stale : ByteMem) (w : World Instances) (dev : Nat) {q : Nat}
    (used : (w.instances q).used = true) : (Romfs.mount stale w dev).1 q = w.instances q := by
  unfold Romfs.mount
  cases free : Romfs.freeInstance w.instances with
  | none => rfl
  | some f =>
      have unused := List.find?_some (p := fun q => !(w.instances q).used) free
      have other : q ≠ f := by
        rintro rfl
        rw [used] at unused
        exact nomatch unused
      dsimp only
      split
      · exact Function.update_of_ne other _ _
      · exact Function.update_of_ne other _ _
      · split
        · exact Function.update_of_ne other _ _
        · split
          · exact Function.update_of_ne other _ _
          · dsimp only
            rw [Function.update_of_ne other, Function.update_of_ne other]

/-- A device that has been mounted can be read. -/
theorem mount_accepted (accepted : (Romfs.mount stale w dev).2 = .value (number, ino)) :
    number < Romfs.maxRomfs ∧ ((Romfs.mount stale w dev).1 number).used = true ∧
      ((Romfs.mount stale w dev).1 number).device = dev ∧
        ∃ device, w.deviceLookup dev = some device ∧ (Touching.blockRead device).isSome = true := by
  unfold Romfs.mount at accepted ⊢
  cases free : Romfs.freeInstance w.instances with
  | none =>
      rw [free] at accepted
      exact nomatch accepted
  | some q =>
      have small : q < Romfs.maxRomfs := List.mem_range.mp (List.mem_of_find?_eq_some free)
      rw [free] at accepted
      dsimp only at accepted ⊢
      cases found : Romfs.readUnaligned w dev stale 512 0 with
      | error errno =>
          rw [found] at accepted
          exact nomatch accepted
      | hang =>
          rw [found] at accepted
          exact nomatch accepted
      | value buff =>
          rw [found] at accepted
          dsimp only at accepted ⊢
          split at accepted
          · exact nomatch accepted
          · next magic =>
              rw [if_neg magic]
              split at accepted
              · exact nomatch accepted
              · next i label =>
                  obtain ⟨rfl, -⟩ := Prod.mk.inj (Outcome.value.inj accepted)
                  dsimp only
                  rw [Function.update_self, Function.update_self]
                  refine ⟨small, rfl, rfl, ?_⟩
                  unfold Romfs.readUnaligned at found
                  rw [if_neg (by decide), if_neg (by decide)] at found
                  split at found
                  · next read write blksize looked => exact ⟨_, looked, rfl⟩
                  · exact nomatch found

theorem claimMount_same {i : Nat} {path : List UInt8} (claims : v.claimMount i path = .value claimed) :
    SameMounts v claimed ∧ claimed.file = v.file := by
  unfold Vfs.claimMount at claims
  split at claims
  · obtain rfl := Outcome.value.inj claims
    exact ⟨sameMounts_setMount v i rfl rfl rfl, rfl⟩
  · obtain ⟨⟨parent, st⟩, -, rest⟩ := Outcome.andThen_eq_value claims
    obtain rfl := Outcome.value.inj rest
    refine ⟨SameMounts.trans ?_ (sameMounts_addOpenFile _ parent), rfl⟩
    exact sameMounts_setMount v i rfl rfl rfl

/-- The instances in use stay as they are. -/
theorem Backed.withInstances (backed : Backed v) {instances : Instances}
    (kept : ∀ q, (v.world.instances q).used = true → instances q = v.world.instances q) :
    Backed (v.withInstances instances) where
  types := backed.types
  registry := backed.registry
  instances := by
    intro mp live
    have used := backed.instances mp live
    exact (congrArg Romfs.Instance.used (kept _ used)).trans used
  serving := by
    intro mp live
    have served := backed.serving mp live
    have same := kept _ (backed.instances mp live)
    refine ⟨served.inTable, served.fsInTable, served.registered, served.instInTable, ?_, ?_⟩
    · exact (congrArg (fun inst => major inst.device < deviceMax) same).mpr served.major
    · exact (congrArg (fun inst => ∃ device, v.world.deviceLookup inst.device = some device ∧
        (Touching.blockRead device).isSome = true) same).mpr served.device

/-- A mount comes into use. -/
theorem Backed.mounted (backed : Backed v) {mp : Nat} {entry : MountPoint}
    (used : (v.world.instances entry.mountedInstance).used = true)
    (served : Touching.Served (v.setMount mp entry) mp) : Backed (v.setMount mp entry) where
  types := backed.types
  registry := backed.registry
  instances := by
    intro i live
    rcases eq_or_ne i mp with rfl | other
    · have here : (v.setMount i entry).mount i = entry := if_pos rfl
      rw [here]
      exact used
    · have there : (v.setMount mp entry).mount i = v.mount i := if_neg other
      rw [Vfs.Live, there] at live
      rw [there]
      exact backed.instances i live
  serving := by
    intro i live
    rcases eq_or_ne i mp with rfl | other
    · exact served
    · have there : (v.setMount mp entry).mount i = v.mount i := if_neg other
      rw [Vfs.Live, there] at live
      have was := backed.serving i live
      exact ⟨was.inTable, there ▸ was.fsInTable, there ▸ was.registered, there ▸ was.instInTable,
        there ▸ was.major, there ▸ was.device⟩

/-- What a driver answered leaves either no trace or a mount that is served. -/
theorem Backed.completed (backed : Backed v) {type i : Nat} (free : i < maxMountPoints)
    (typed : type < maxFileSystems ∧ (v.fsType type).used = true) (dev : Nat) :
    Backed (v.completeMount type i dev).2 ∧ (v.completeMount type i dev).2.file = v.file ∧
      ∀ mp, v.Live mp → (v.completeMount type i dev).2.Live mp := by
  obtain ⟨stale, romfs⟩ := backed.types type typed.2
  have asked : (v.fsType type).mount v.world dev = Romfs.mount stale v.world dev := by
    rw [romfs]
    rfl
  have kept : ∀ q, (v.world.instances q).used = true →
      (Romfs.mount stale v.world dev).1 q = v.world.instances q :=
    fun q used => mount_kept stale v.world dev used
  have accepted := @mount_accepted stale v.world dev
  generalize Romfs.mount stale v.world dev = result at asked kept accepted
  obtain ⟨instances, outcome⟩ := result
  have after : Backed (v.withInstances instances) := backed.withInstances kept
  unfold Vfs.completeMount
  rw [asked]
  cases outcome with
  | error errno => exact ⟨after, rfl, fun _ => id⟩
  | hang => exact ⟨after, rfl, fun _ => id⟩
  | value result =>
      obtain ⟨number, ino⟩ := result
      obtain ⟨small, inUse, onDevice, device, looked, readable⟩ := accepted rfl
      refine ⟨after.mounted inUse ?_, rfl, fun mp live => ?_⟩
      · have here (v : Vfs Instances) (entry : MountPoint) : (v.setMount i entry).mount i = entry :=
          if_pos rfl
        have looks : v.world.deviceLookup (instances number).device = some device := by
          rw [onDevice]
          exact looked
        constructor
        · exact free
        · rw [here]
          exact typed.1
        · rw [here]
          exact typed.2
        · rw [here]
          exact small
        · rw [here]
          exact backed.registry _ device looks
        · rw [here]
          exact ⟨device, looks, readable⟩
      · refine ⟨live.1, ?_⟩
        unfold Vfs.setMount
        dsimp only
        split
        · rfl
        · exact live.2

theorem Backed.vfsMount (backed : Backed v) (dev : Nat) (path : List UInt8) (fs : String) :
    Backed (v.vfsMount dev path fs).2 ∧ (v.vfsMount dev path fs).2.file = v.file ∧
      ∀ mp, v.Live mp → (v.vfsMount dev path fs).2.Live mp := by
  unfold Vfs.vfsMount
  cases known : v.findType fs with
  | none => exact ⟨backed, rfl, fun _ => id⟩
  | some type =>
      have small : type < maxFileSystems := List.mem_range.mp (List.mem_of_find?_eq_some known)
      have used := List.find?_some (p := fun i => (v.fsType i).used && (v.fsType i).name == fs) known
      dsimp only
      cases free : v.freeMount with
      | none => exact ⟨backed, rfl, fun _ => id⟩
      | some i =>
          dsimp only
          cases claims : v.claimMount i path with
          | error errno => exact ⟨backed, rfl, fun _ => id⟩
          | hang => exact ⟨backed, rfl, fun _ => id⟩
          | value claimed =>
              obtain ⟨same, file⟩ := claimMount_same claims
              have typed : (claimed.fsType type).used = true := by
                rw [same.fsType]
                exact (Bool.and_eq_true_iff.mp used).1
              obtain ⟨done, file', live⟩ :=
                (backed.same same).completed (freeMount_free free).1 ⟨small, typed⟩ dev
              exact ⟨done, file'.trans file, fun mp was => live mp (same.live.mpr was)⟩

end Mounting

end System

end TrollOS.Process
