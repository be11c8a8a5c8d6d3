import TrollOS.Romfs.Directory
import TrollOS.Vfs.Accounting

/-!
# A mount that fails

`vfs_mount` counts the new mount in its parent before the driver has been asked, and
takes nothing back when the driver refuses.  All other failures leave the tables alone.
-/

namespace TrollOS.Romfs

open TrollOS.Lib Vfs

/-- The used mounts are the same, each as it was, and the driver uses the same instances. -/
structure NoTrace (v v' : Vfs Instances) : Prop where
  used : ∀ i, (v'.mount i).isUsed = (v.mount i).isUsed
  entry : ∀ i, (v.mount i).isUsed = true → v'.mount i = v.mount i
  instances : ∀ q, (v'.world.instances q).used = (v.world.instances q).used

namespace NoTrace

variable {v v' : Vfs Instances}

theorem refl (v : Vfs Instances) : NoTrace v v := ⟨fun _ => rfl, fun _ _ => rfl, fun _ => rfl⟩

/-- An unused entry is no trace. -/
theorem unused {i : Nat} (entry : MountPoint) (free : (v.mount i).isUsed = false)
    (still : entry.isUsed = false) {instances : Instances}
    (same : ∀ q, (instances q).used = (v.world.instances q).used) :
    NoTrace v ((v.setMount i entry).withInstances instances) := by
  refine ⟨fun j => ?_, fun j used => ?_, same⟩
  · change (if j = i then entry else v.mount j).isUsed = _
    split
    · rename_i here
      rw [here, still, free]
    · rfl
  · refine if_neg fun here => ?_
    rw [here, free] at used
    exact nomatch used

/-- A raised count on a mount in use is one. -/
theorem not_counted {i : Nat} (used : (v.mount i).isUsed = true)
    (counted : (v'.mount i).openFiles = (v.mount i).openFiles + 1) : ¬ NoTrace v v' := by
  intro none
  rw [none.entry i used] at counted
  omega

end NoTrace

/-- A refusal takes no instance. -/
theorem mount_refused {stale : ByteMem} {w : World Instances} {dev : Nat}
    (refused : ∀ mounted, (mount stale w dev).2 ≠ .value mounted) (q : Nat) :
    ((mount stale w dev).1 q).used = (w.instances q).used := by
  have kept (p : Nat) : (Function.update w.instances p { w.instances p with device := dev } q).used =
      (w.instances q).used := by
    by_cases same : q = p
    · rw [same, Function.update_self]
    · rw [Function.update_of_ne same]
  unfold mount at refused ⊢
  cases free : freeInstance w.instances with
  | none => rfl
  | some p =>
      rw [free] at refused
      dsimp only at refused ⊢
      cases looked : readUnaligned w dev stale 512 0 with
      | error errno => exact kept p
      | hang => exact kept p
      | value buff =>
          rw [looked] at refused
          dsimp only at refused ⊢
          split
          · exact kept p
          · rename_i named
            rw [if_neg named] at refused
            cases ends : (List.range' 16 496).find? fun i => buff i == 0 with
            | none => exact kept p
            | some i =>
                rw [ends] at refused
                exact absurd rfl (refused _)

section Mounting

/-- The call fails because the driver refuses. -/
theorem completeMount_failed {ι : Type} {v : Vfs ι} {type i dev : Nat} {errno : Int}
    (failed : (v.completeMount type i dev).1 = .error errno) (mounted : Nat × Nat) :
    ((v.fsType type).mount v.world dev).2 ≠ .value mounted := by
  intro accepted
  unfold completeMount at failed
  dsimp only at failed
  rw [accepted] at failed
  exact nomatch failed

variable {v : Vfs Instances} {stale : ByteMem} {dev : Nat} {path : List UInt8} {fs : String} {errno : Int}

/-- A mount that fails leaves no trace exactly when the driver was not asked about a place
inside another file system. -/
theorem failed_mount_iff
    (driver : ∀ type, v.findType fs = some type → (v.fsType type).mount = mount stale)
    (failed : (v.vfsMount dev path fs).1 = .error errno) :
    NoTrace v (v.vfsMount dev path fs).2 ↔
      path = [slash] ∨ v.findType fs = none ∨ v.freeMount = none ∨ ∃ e, v.vfsStat path = .error e := by
  unfold vfsMount at failed ⊢
  cases named : v.findType fs with
  | none => exact iff_of_true (.refl v) (Or.inr (Or.inl rfl))
  | some type =>
      rw [named] at failed
      cases free : v.freeMount with
      | none => exact iff_of_true (.refl v) (Or.inr (Or.inr (Or.inl rfl)))
      | some i =>
          rw [free] at failed
          dsimp only at failed ⊢
          have unused := (freeMount_free free).2
          by_cases root : path = [slash]
          · refine iff_of_true ?_ (Or.inl root)
            simp only [claimMount, if_pos root] at failed ⊢
            have refused := completeMount_failed failed
            rw [completeMount_refused _ refused]
            refine NoTrace.unused { v.mount i with dev := allOnes, inode := allOnes } unused unused
              fun q => ?_
            change ∀ mounted, ((v.fsType type).mount v.world dev).2 ≠ .value mounted at refused
            change (((v.fsType type).mount v.world dev).1 q).used = _
            rw [driver type named] at refused ⊢
            exact mount_refused refused q
          · cases found : v.vfsStat path with
            | error e =>
                refine iff_of_true ?_ (Or.inr (Or.inr (Or.inr ⟨e, rfl⟩)))
                simp only [claimMount, if_neg root, found, Outcome.andThen_error]
                exact .refl v
            | hang =>
                simp only [claimMount, if_neg root, found, Outcome.andThen_hang] at failed
                cases failed
            | value result =>
                obtain ⟨parent, s⟩ := result
                have alive := (vfsStat_live found).2
                have other : parent ≠ i := fun same => by
                  rw [same, unused] at alive
                  cases alive
                simp only [claimMount, if_neg root, found, Outcome.andThen_value] at failed ⊢
                rw [completeMount_refused _ (completeMount_failed failed)]
                refine iff_of_false (NoTrace.not_counted alive ?_) ?_
                · change (if parent = parent then _ else _ : MountPoint).openFiles = _
                  rw [if_pos rfl]
                  exact congrArg (·.openFiles + 1) (setMount_other v _ other)
                · rintro (isRoot | none | none | ⟨e, missing⟩)
                  · exact root isRoot
                  · cases none
                  · cases none
                  · cases missing

end Mounting

def smallVolume : Image where
  len := smallImage.len
  bytes := fun i => magic.getD i (smallImage.bytes i)

/-- Nothing mounted, the volume as device 0, and only zeros on the others. -/
def bootTables : Vfs Instances where
  fsType _ := fsType fun _ => 0
  mount _ := ⟨false, 0, 0, 0, 0, 0, 0, 0⟩
  file _ := ⟨false, false, false, false, false, false, 0, 0, 0, 0, 0⟩
  world := ⟨fun dev => some (memblk (if dev = 0 then smallVolume else ⟨1024, fun _ => 0⟩)),
    fun _ => ⟨false, 0, 0⟩⟩

def mountedTables : Vfs Instances := (bootTables.exec (.mount 0 [slash] "romfs")).2

theorem mountedTables_types (type : Nat) : (mountedTables.fsType type).mount = mount fun _ => 0 := by
  have types : ∀ v : Vfs Instances, (∀ type, (v.fsType type).mount = mount fun _ => 0) →
      ∀ dev fs type, ((v.vfsMount dev [slash] fs).2.fsType type).mount = mount fun _ => 0 := by
    intro v driver dev fs type
    unfold vfsMount
    cases v.findType fs with
    | none => exact driver type
    | some found =>
        cases v.freeMount with
        | none => exact driver type
        | some i =>
            simp only [claimMount, if_pos]
            unfold completeMount
            dsimp only
            split
            · exact driver type
            · exact driver type
            · exact driver type
  exact types bootTables (fun _ => rfl) 0 "romfs" type

theorem mountedTables_reachable :
    Vfs.Reachable mountedTables (Tally.empty.next bootTables (.mount 0 [slash] "romfs")) :=
  .step _ (.initial ⟨fun _ => ⟨rfl, rfl⟩, fun _ => ⟨rfl, rfl⟩⟩) (by decide +kernel)

theorem failed_mount_missing :
    NoTrace mountedTables (mountedTables.vfsMount 1 [slash, 98] "romfs").2 ↔
      [slash, 98] = [slash] ∨ mountedTables.findType "romfs" = none ∨ mountedTables.freeMount = none ∨
        ∃ e, mountedTables.vfsStat [slash, 98] = .error e :=
  @failed_mount_iff _ _ 1 [slash, 98] "romfs" (-enoent) (fun type _ => mountedTables_types type)
    (by decide +kernel)

/-- The driver refuses a device of zeros for the directory `/.`, and the mount on `/` keeps
the count. -/
theorem failed_mount_counted :
    ¬ ∀ (v : Vfs Instances) (t : Tally) (stale : ByteMem), Vfs.Reachable v t →
      (∀ type, (v.fsType type).mount = mount stale) →
      ∀ (dev : Nat) (path : List UInt8) (fs : String) (errno : Int),
        (v.vfsMount dev path fs).1 = .error errno → NoTrace v (v.vfsMount dev path fs).2 := by
  intro claim
  have none := claim mountedTables _ (fun _ => 0) mountedTables_reachable mountedTables_types 1
    [slash, 46] "romfs" (-einval) (by decide +kernel)
  exact NoTrace.not_counted (show (mountedTables.mount 0).isUsed = true by decide +kernel)
    (by decide +kernel) none

end TrollOS.Romfs
