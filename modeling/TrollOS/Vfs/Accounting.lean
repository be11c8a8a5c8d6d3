import TrollOS.Lib.Counting
import TrollOS.Vfs.Resolution

/-!
# Open files and mounts

Every call of the file table is counted beside the code: on which mount a file
was opened, and inside which mount a file system is mounted.  The code keeps to
this count as long as nothing is closed that the count does not know, and no
driver refuses a mount inside another.
-/

namespace TrollOS.Vfs

open TrollOS.Lib

variable {ι : Type}

inductive Call where
  | mount (dev : Nat) (path : List UInt8) (fs : String)
  | open (path : List UInt8)
  | openDevice (device : Nat)
  | close (fd : Int)

/-- A call, and what it returns: a descriptor, zero, or an error number. -/
def exec (v : Vfs ι) : Call → Outcome Int × Vfs ι
  | .mount dev path fs =>
      ((v.vfsMount dev path fs).1.andThen fun _ => .value 0, (v.vfsMount dev path fs).2)
  | .open path => ((v.vfsOpen path).1.andThen fun fd => .value fd, (v.vfsOpen path).2)
  | .openDevice device =>
      ((v.vfsOpenDevice device).1.andThen fun fd => .value fd, (v.vfsOpenDevice device).2)
  | .close fd => (.value (v.vfsClose fd).1, (v.vfsClose fd).2)

/-- The mount each file was opened on, none for a raw device, and the mount inside
which each file system is mounted. -/
structure Tally where
  opened : Nat → Option Nat
  inside : Nat → Option Nat

namespace Tally

def empty : Tally := ⟨fun _ => none, fun _ => none⟩

def openOn (t : Tally) (fd : Nat) (mp : Option Nat) : Tally :=
  { t with opened := fun i => if i = fd then mp else t.opened i }

def mountIn (t : Tally) (i : Nat) (parent : Option Nat) : Tally :=
  { t with inside := fun j => if j = i then parent else t.inside j }

def next (t : Tally) (v : Vfs ι) : Call → Tally
  | .mount _ path _ =>
      match v.freeMount with
      | none => t
      | some i =>
          if path = [slash] then t.mountIn i none
          else
            match v.vfsStat path with
            | .value (parent, _) => t.mountIn i (some parent)
            | _ => t
  | .open path =>
      match v.vfsStat path with
      | .value (mp, _) =>
          match v.allocFile with
          | some fd => t.openOn fd (some mp)
          | none => t
      | _ => t
  | .openDevice _ =>
      match v.allocFile with
      | some fd => t.openOn fd none
      | none => t
  | .close _ => t

end Tally

def Live (v : Vfs ι) (i : Nat) : Prop := i < maxMountPoints ∧ (v.mount i).isUsed = true

def filesOn (v : Vfs ι) (t : Tally) (i : Nat) : Nat :=
  slots maxGlobalFiles fun fd => (v.file fd).isUsed && t.opened fd == some i

def mountsIn (v : Vfs ι) (t : Tally) (i : Nat) : Nat :=
  slots maxMountPoints fun j => (v.mount j).isUsed && t.inside j == some i

/-- The tables agree with the tally. -/
structure Accounted (v : Vfs ι) (t : Tally) : Prop where
  ref_nonneg : ∀ fd, 0 ≤ (v.file fd).ref
  used_iff : ∀ fd, (v.file fd).isUsed = true ↔ 0 < (v.file fd).ref
  openFiles : ∀ i, (v.mount i).openFiles = v.filesOn t i + v.mountsIn t i
  opened_live : ∀ fd i, (v.file fd).isUsed = true → t.opened fd = some i → v.Live i
  inside_live : ∀ j i, (v.mount j).isUsed = true → t.inside j = some i → v.Live i
  plain : ∀ fd, (v.file fd).isUsed = true → (v.file fd).isDevice = false →
    t.opened fd = some (v.file fd).data

/-- A close of what is not open is refused without effect; any other stays inside the
mount table. -/
def CloseRight (v : Vfs ι) (fd : Int) : Prop :=
  (¬ (0 ≤ fd ∧ fd < maxGlobalFiles ∧ (v.file fd.toNat).isUsed = true) →
    v.vfsClose fd = (-ebadf, v)) ∧
  (0 ≤ fd → fd < maxGlobalFiles → (v.file fd.toNat).isUsed = true →
    (v.file fd.toNat).data < maxMountPoints)

structure Initial (v : Vfs ι) : Prop where
  file : ∀ fd, (v.file fd).isUsed = false ∧ (v.file fd).ref = 0
  mount : ∀ i, (v.mount i).isUsed = false ∧ (v.mount i).openFiles = 0

/-- Every state the calls lead to, with its tally. -/
inductive Reachable : Vfs ι → Tally → Prop where
  | initial {v : Vfs ι} : Initial v → Reachable v Tally.empty
  | step {v : Vfs ι} {t : Tally} (call : Call) : Reachable v t →
      (v.exec call).1 ≠ .hang → Reachable (v.exec call).2 (t.next v call)

/-- The condition on a call: a descriptor in range that is closed is open and its
union still names the mount it was opened on, and a driver asked to mount inside
another file system accepts. -/
def Meets (v : Vfs ι) (t : Tally) : Call → Prop
  | .mount dev path fs =>
      path ≠ [slash] → ∀ i type parent s, v.freeMount = some i → v.findType fs = some type →
        v.vfsStat path = .value (parent, s) →
          ∃ mounted, ((v.fsType type).mount v.world dev).2 = .value mounted
  | .close fd =>
      0 ≤ fd → fd < maxGlobalFiles →
        (v.file fd.toNat).isUsed = true ∧ t.opened fd.toNat = some (v.file fd.toNat).data
  | _ => True

inductive MeetingRun : Vfs ι → Tally → Prop where
  | initial {v : Vfs ι} : Initial v → MeetingRun v Tally.empty
  | step {v : Vfs ι} {t : Tally} (call : Call) : MeetingRun v t → v.Meets t call →
      (v.exec call).1 ≠ .hang → MeetingRun (v.exec call).2 (t.next v call)

section Places

variable {v : Vfs ι} {at' place : Place}

theorem isMountpoint_live {dev ino mp : Nat} (found : v.isMountpoint dev ino = some mp) :
    v.Live mp :=
  ⟨List.mem_range.mp (List.mem_of_find?_eq_some found), isMountpoint_used found⟩

theorem cross_live (live : v.Live at'.mount) (s : Stat) : v.Live (v.cross at' s).mount := by
  cases found : v.isMountpoint s.dev s.ino with
  | some mp =>
      rw [cross_mounted found]
      exact isMountpoint_live found
  | none =>
      rw [cross_plain found]
      exact live

theorem enter_live {name : List UInt8} (live : v.Live at'.mount)
    (entered : v.enter at' name = .value place) : v.Live place.mount := by
  obtain ⟨s, looked, rest⟩ := Outcome.andThen_eq_value entered
  split at rest
  · obtain rfl := Outcome.value.inj rest
    exact cross_live live s
  · exact nomatch rest

theorem walk_live {names : List (List UInt8)} (live : v.Live at'.mount)
    (walked : v.walk at' names = .value place) : v.Live place.mount := by
  induction names generalizing at' with
  | nil =>
      obtain rfl := Outcome.value.inj walked
      exact live
  | cons name names ih =>
      cases names with
      | nil =>
          obtain ⟨s, looked, rest⟩ := Outcome.andThen_eq_value walked
          obtain rfl := Outcome.value.inj rest
          exact live
      | cons next names =>
          obtain ⟨inner, entered, rest⟩ := Outcome.andThen_eq_value walked
          exact ih (enter_live live entered) rest

theorem resolvIno_live {path : List UInt8} (found : v.resolvIno path 0 = .value place) :
    v.Live place.mount := by
  cases path with
  | nil => exact nomatch found
  | cons first tail =>
      by_cases absolute : first = slash
      · subst absolute
        cases mounted : v.rootMount with
        | none =>
            unfold resolvIno at found
            rw [mounted] at found
            exact nomatch found
        | some root =>
            rw [resolvIno_eq v mounted] at found
            exact walk_live (@isMountpoint_live _ v allOnes allOnes root mounted) found
      · unfold resolvIno at found
        rw [if_neg (by decide)] at found
        dsimp only at found
        rw [if_pos absolute] at found
        exact nomatch found

theorem vfsStat_live {path : List UInt8} {mp : Nat} {s : Stat}
    (found : v.vfsStat path = .value (mp, s)) : v.Live mp := by
  obtain ⟨place, resolved, rest⟩ := Outcome.andThen_eq_value found
  obtain ⟨s', -, rest⟩ := Outcome.andThen_eq_value rest
  obtain ⟨rfl, -⟩ := Prod.mk.inj (Outcome.value.inj rest)
  exact resolvIno_live resolved

theorem allocFile_free {fd : Nat} (found : v.allocFile = some fd) :
    fd < maxGlobalFiles ∧ (v.file fd).isUsed = false := by
  unfold allocFile at found
  have member : fd ∈ List.range maxGlobalFiles := List.mem_of_find?_eq_some found
  have unused := List.find?_some (p := fun i => !(v.file i).isUsed) found
  exact ⟨List.mem_range.mp member, Bool.not_eq_eq_eq_not.mp unused⟩

/-- Reading moves at most a position. -/
theorem advance_moves (v : Vfs ι) (fd : Nat) (result : Int × List UInt8) :
    (v.advance fd result).2 = v ∨
      ∃ target, (v.advance fd result).2 = v.setFile fd { v.file fd with pos := target } := by
  unfold advance
  split
  · exact Or.inr ⟨_, rfl⟩
  · exact Or.inl rfl

theorem readFile_moves {fd count : Nat} {answer : Int × List UInt8}
    (ran : v.readFile fd count = some (answer, v')) :
    v' = v ∨ ∃ target, v' = v.setFile fd { v.file fd with pos := target } := by
  have still {result : Int × List UInt8} (same : some (result, v) = some (answer, v')) :
      v' = v ∨ ∃ target, v' = v.setFile fd { v.file fd with pos := target } :=
    Or.inl (Prod.mk.inj (Option.some.inj same)).2.symm
  have moved {result : Int × List UInt8} (same : some (v.advance fd result) = some (answer, v')) :
      v' = v ∨ ∃ target, v' = v.setFile fd { v.file fd with pos := target } := by
    have moves := advance_moves v fd result
    rwa [Option.some.inj same] at moves
  unfold readFile at ran
  dsimp only at ran
  split at ran
  · exact still ran
  · split at ran
    · split at ran
      · exact still ran
      · exact still ran
      · exact still ran
      · exact moved ran
    · split at ran
      · exact still ran
      · split at ran
        · exact still ran
        · split at ran
          · exact moved ran
          · exact still ran
          · exact nomatch ran

theorem vfsRead_moves {fd : Int} {count : Nat} {answer : Int × List UInt8}
    (ran : v.vfsRead fd count = some (answer, v')) :
    v' = v ∨ ∃ target, v' = v.setFile fd.toNat { v.file fd.toNat with pos := target } := by
  unfold vfsRead at ran
  split at ran
  · exact Or.inl (Prod.mk.inj (Option.some.inj ran)).2.symm
  · split at ran
    · exact nomatch ran
    · exact readFile_moves ran

theorem freeMount_free {i : Nat} (found : v.freeMount = some i) :
    i < maxMountPoints ∧ (v.mount i).isUsed = false := by
  unfold freeMount at found
  have member : i ∈ List.range maxMountPoints := List.mem_of_find?_eq_some found
  have unused := List.find?_some (p := fun i => !(v.mount i).isUsed) found
  exact ⟨List.mem_range.mp member, Bool.not_eq_eq_eq_not.mp unused⟩

end Places

section Steps

variable {v v' : Vfs ι} {t : Tally}

/-- How the count of a mount's files moves when one entry changes. -/
theorem filesOn_change (t' : Tally) {k : Nat} (small : k < maxGlobalFiles)
    (file : ∀ fd, fd ≠ k → v'.file fd = v.file fd)
    (opened : ∀ fd, fd ≠ k → t'.opened fd = t.opened fd) (i : Nat) :
    v'.filesOn t' i + ((v.file k).isUsed && t.opened k == some i).toNat =
      v.filesOn t i + ((v'.file k).isUsed && t'.opened k == some i).toNat := by
  apply slots_change small
  intro fd other
  rw [file fd other, opened fd other]

/-- How the count of a mount's file systems moves when one mount changes. -/
theorem mountsIn_change {t' : Tally} {k : Nat} (small : k < maxMountPoints)
    (used : ∀ j, j ≠ k → (v'.mount j).isUsed = (v.mount j).isUsed)
    (inside : ∀ j, j ≠ k → t'.inside j = t.inside j) (i : Nat) :
    v'.mountsIn t' i + ((v.mount k).isUsed && t.inside k == some i).toNat =
      v.mountsIn t i + ((v'.mount k).isUsed && t'.inside k == some i).toNat := by
  apply slots_change small
  intro j other
  rw [used j other, inside j other]

theorem mountsIn_congr {t' : Tally} (used : ∀ j, (v'.mount j).isUsed = (v.mount j).isUsed)
    (inside : t'.inside = t.inside) (i : Nat) : v'.mountsIn t' i = v.mountsIn t i := by
  apply slots_congr
  intro j _
  rw [used j, inside]

theorem Live.congr {i : Nat} (used : ∀ j, (v'.mount j).isUsed = (v.mount j).isUsed)
    (live : v.Live i) : v'.Live i := ⟨live.1, by rw [used i]; exact live.2⟩

/-- A free entry is filled: opened on the mount `mp`, or on none. -/
theorem Accounted.filled (kept : v.Accounted t) {fd : Nat} (entry : FileEntry) {mp : Option Nat}
    (small : fd < maxGlobalFiles) (free : (v.file fd).isUsed = false)
    (file : ∀ i, v'.file i = if i = fd then entry else v.file i)
    (used : entry.isUsed = true) (ref : entry.ref = 1)
    (plain : entry.isDevice = false → mp = some entry.data)
    (live : ∀ i, mp = some i → v.Live i)
    (mounts : ∀ i, (v'.mount i).isUsed = (v.mount i).isUsed)
    (counts : ∀ i, (v'.mount i).openFiles = (v.mount i).openFiles + (mp == some i).toNat) :
    v'.Accounted (t.openOn fd mp) := by
  have here : v'.file fd = entry := by rw [file fd, if_pos rfl]
  have there : ∀ i, i ≠ fd → v'.file i = v.file i := fun i other => by rw [file i, if_neg other]
  have opened : (t.openOn fd mp).opened fd = mp := if_pos rfl
  have elsewhere : ∀ i, i ≠ fd → (t.openOn fd mp).opened i = t.opened i := fun i other =>
    if_neg other
  constructor
  · intro i
    by_cases same : i = fd
    · rw [same, here, ref]
      decide
    · rw [there i same]
      exact kept.ref_nonneg i
  · intro i
    by_cases same : i = fd
    · rw [same, here, ref, used]
      decide
    · rw [there i same]
      exact kept.used_iff i
  · intro i
    have moved := filesOn_change (t.openOn fd mp) small there elsewhere i
    rw [here, opened, free, used, Bool.false_and, Bool.true_and] at moved
    have within : v'.mountsIn (t.openOn fd mp) i = v.mountsIn t i := mountsIn_congr mounts rfl i
    rw [counts i, kept.openFiles i, within]
    simp only [Bool.toNat_false] at moved
    omega
  · intro i mp' inUse openedOn
    apply Live.congr mounts
    by_cases same : i = fd
    · rw [same, opened] at openedOn
      exact live mp' openedOn
    · rw [there i same] at inUse
      rw [elsewhere i same] at openedOn
      exact kept.opened_live i mp' inUse openedOn
  · intro j i inUse within
    rw [mounts j] at inUse
    exact (kept.inside_live j i inUse within).congr mounts
  · intro i inUse noDevice
    by_cases same : i = fd
    · rw [same, here] at noDevice ⊢
      rw [opened]
      exact plain noDevice
    · rw [there i same] at inUse noDevice ⊢
      rw [elsewhere i same]
      exact kept.plain i inUse noDevice

theorem Accounted.open (kept : v.Accounted t) (path : List UInt8) :
    (v.vfsOpen path).2.Accounted (t.next v (.open path)) := by
  unfold vfsOpen
  cases found : v.vfsStat path with
  | error errno =>
      dsimp only [Tally.next]
      rw [found]
      exact kept
  | hang =>
      dsimp only [Tally.next]
      rw [found]
      exact kept
  | value result =>
      obtain ⟨mp, s⟩ := result
      cases free : v.allocFile with
      | none =>
          dsimp only [Tally.next]
          rw [found, free]
          exact kept
      | some fd =>
          dsimp only [Tally.next]
          rw [found, free]
          have unused := allocFile_free free
          have live := vfsStat_live found
          apply kept.filled (openedEntry (v.file fd) mp s) unused.1 unused.2
            (fun _ => rfl) rfl rfl
          · intro noDevice
            change some mp = some (if s.isBlk || s.isChr then s.rdev else mp)
            change (s.isBlk || s.isChr) = false at noDevice
            rw [noDevice]
            rfl
          · intro i same
            obtain rfl := Option.some.inj same
            exact live
          · intro i
            change (if i = mp then _ else v.mount i : MountPoint).isUsed = _
            split
            · rename_i same
              rw [same]
              rfl
            · rfl
          · intro i
            change (if i = mp then _ else v.mount i : MountPoint).openFiles = _
            split
            · rename_i same
              rw [same, beq_self_eq_true]
              rfl
            · rename_i other
              rw [beq_eq_false_iff_ne.mpr fun same => other (Option.some.inj same).symm]
              exact (Int.add_zero _).symm

theorem Accounted.openDevice (kept : v.Accounted t) (device : Nat) :
    (v.vfsOpenDevice device).2.Accounted (t.next v (.openDevice device)) := by
  unfold vfsOpenDevice
  cases free : v.allocFile with
  | none =>
      dsimp only [Tally.next]
      rw [free]
      exact kept
  | some fd =>
      dsimp only [Tally.next]
      rw [free]
      have unused := allocFile_free free
      apply kept.filled _ unused.1 unused.2 (fun _ => rfl) rfl rfl
      · intro noDevice
        exact nomatch noDevice
      · intro i same
        exact nomatch same
      · intro i
        rfl
      · intro i
        exact (Int.add_zero _).symm

theorem vfsClose_refused {fd : Int} (outside : ¬ (0 ≤ fd ∧ fd < maxGlobalFiles)) :
    v.vfsClose fd = (-ebadf, v) := by
  unfold vfsClose
  exact if_pos (by omega)

/-- The entry and the mount that `vfs_close` writes, for a descriptor in range. -/
theorem vfsClose_inside {fd : Int} (low : 0 ≤ fd) (high : fd < maxGlobalFiles) :
    v.vfsClose fd =
      if (v.file fd.toNat).ref - 1 = 0 then
        (0, (v.setFile fd.toNat { v.file fd.toNat with
            ref := (v.file fd.toNat).ref - 1, isUsed := false }).setMount (v.file fd.toNat).data
          { v.mount (v.file fd.toNat).data with
            openFiles := (v.mount (v.file fd.toNat).data).openFiles - 1 })
      else (0, v.setFile fd.toNat { v.file fd.toNat with ref := (v.file fd.toNat).ref - 1 }) := by
  unfold vfsClose
  exact if_neg (by omega)

/-- One reference of an open file is given back. -/
theorem Accounted.released (kept : v.Accounted t) {fd mp : Nat} {entry : FileEntry}
    (small : fd < maxGlobalFiles) (open' : (v.file fd).isUsed = true)
    (opened : t.opened fd = some mp)
    (file : ∀ i, v'.file i = if i = fd then entry else v.file i)
    (ref : entry.ref = (v.file fd).ref - 1) (used : entry.isUsed = decide (0 < (v.file fd).ref - 1))
    (same : entry.isDevice = (v.file fd).isDevice ∧ entry.data = (v.file fd).data)
    (mounts : ∀ i, (v'.mount i).isUsed = (v.mount i).isUsed)
    (counts : ∀ i, (v'.mount i).openFiles =
      (v.mount i).openFiles - (!entry.isUsed && some mp == some i).toNat) :
    v'.Accounted t := by
  have here : v'.file fd = entry := by rw [file fd, if_pos rfl]
  have there : ∀ i, i ≠ fd → v'.file i = v.file i := fun i other => by rw [file i, if_neg other]
  have positive : 0 < (v.file fd).ref := (kept.used_iff fd).mp open'
  constructor
  · intro i
    by_cases this : i = fd
    · rw [this, here, ref]
      omega
    · rw [there i this]
      exact kept.ref_nonneg i
  · intro i
    by_cases this : i = fd
    · rw [this, here, used, ref]
      exact decide_eq_true_iff
    · rw [there i this]
      exact kept.used_iff i
  · intro i
    have moved := filesOn_change t small there (fun _ _ => rfl) i
    have within : v'.mountsIn t i = v.mountsIn t i := mountsIn_congr mounts rfl i
    rw [here, opened, open', Bool.true_and] at moved
    rw [counts i, kept.openFiles i, within]
    cases stillOpen : entry.isUsed with
    | true =>
        rw [stillOpen, Bool.true_and] at moved
        rw [Bool.not_true, Bool.false_and]
        simp only [Bool.toNat_false]
        omega
    | false =>
        rw [stillOpen, Bool.false_and] at moved
        rw [Bool.not_false, Bool.true_and]
        simp only [Bool.toNat_false] at moved
        omega
  · intro i mp' inUse openedOn
    apply Live.congr mounts
    by_cases this : i = fd
    · subst this
      exact kept.opened_live i mp' open' openedOn
    · rw [there i this] at inUse
      exact kept.opened_live i mp' inUse openedOn
  · intro j i inUse within
    rw [mounts j] at inUse
    exact (kept.inside_live j i inUse within).congr mounts
  · intro i inUse noDevice
    by_cases this : i = fd
    · subst this
      rw [here, same.1] at noDevice
      rw [here, same.2]
      exact kept.plain i open' noDevice
    · rw [there i this] at inUse noDevice ⊢
      exact kept.plain i inUse noDevice

theorem setMount_eq (v : Vfs ι) (k : Nat) (entry : MountPoint) (i : Nat) :
    (v.setMount k entry).mount i = if i = k then entry else v.mount i := rfl

theorem Accounted.close (kept : v.Accounted t) {fd : Int} (low : 0 ≤ fd)
    (high : fd < maxGlobalFiles) (open' : (v.file fd.toNat).isUsed = true)
    (opened : t.opened fd.toNat = some (v.file fd.toNat).data) :
    (v.vfsClose fd).2.Accounted t := by
  have positive : 0 < (v.file fd.toNat).ref := (kept.used_iff fd.toNat).mp open'
  have small : fd.toNat < maxGlobalFiles := by omega
  rw [vfsClose_inside low high]
  by_cases last : (v.file fd.toNat).ref - 1 = 0
  · rw [if_pos last]
    apply kept.released small open' opened (fun _ => rfl) rfl
    · exact (decide_eq_false (by omega)).symm
    · exact ⟨rfl, rfl⟩
    · intro i
      rw [setMount_eq]
      split
      · rename_i same
        rw [same]
      · rfl
    · intro i
      rw [setMount_eq]
      split
      · rename_i same
        rw [same, beq_self_eq_true]
        rfl
      · rename_i other
        rw [beq_eq_false_iff_ne.mpr fun same => other (Option.some.inj same).symm]
        exact (Int.sub_zero _).symm
  · rw [if_neg last]
    apply kept.released small open' opened (fun _ => rfl) rfl
    · exact open'.trans (decide_eq_true (by omega)).symm
    · exact ⟨rfl, rfl⟩
    · intro i
      rfl
    · intro i
      change _ = _ - ((!(v.file fd.toNat).isUsed && _).toNat : Int)
      rw [open']
      exact (Int.sub_zero _).symm

/-- An unused mount entry is rewritten and stays unused. -/
theorem Accounted.claimed (kept : v.Accounted t) {k : Nat} {parent : Option Nat}
    (entry : MountPoint) (free : (v.mount k).isUsed = false) (unused : entry.isUsed = false)
    (openFiles : entry.openFiles = (v.mount k).openFiles)
    (file : v'.file = v.file) (mount : ∀ i, v'.mount i = if i = k then entry else v.mount i) :
    v'.Accounted (t.mountIn k parent) := by
  have used : ∀ i, (v'.mount i).isUsed = (v.mount i).isUsed := by
    intro i
    rw [mount i]
    split
    · rename_i same
      rw [same, unused, free]
    · rfl
  have counts : ∀ i, (v'.mount i).openFiles = (v.mount i).openFiles := by
    intro i
    rw [mount i]
    split
    · rename_i same
      rw [same, openFiles]
    · rfl
  have within : ∀ i, v'.mountsIn (t.mountIn k parent) i = v.mountsIn t i := by
    intro i
    apply slots_congr
    intro j _
    rw [used j]
    by_cases same : j = k
    · rw [same, free, Bool.false_and, Bool.false_and]
    · change (_ && (if j = k then parent else t.inside j) == some i) = _
      rw [if_neg same]
  have files : ∀ i, v'.filesOn (t.mountIn k parent) i = v.filesOn t i := by
    intro i
    unfold filesOn
    rw [file]
    rfl
  constructor
  · rw [file]
    exact kept.ref_nonneg
  · rw [file]
    exact kept.used_iff
  · intro i
    rw [counts i, within i, files i]
    exact kept.openFiles i
  · intro fd i inUse opened
    rw [file] at inUse
    exact (kept.opened_live fd i inUse opened).congr used
  · intro j i inUse inside
    rw [used j] at inUse
    have other : j ≠ k := fun same => by
      rw [same, free] at inUse
      exact nomatch inUse
    have before : t.inside j = some i := by
      change (if j = k then parent else t.inside j) = some i at inside
      rwa [if_neg other] at inside
    exact (kept.inside_live j i inUse before).congr used
  · rw [file]
    exact kept.plain

/-- A free entry becomes a mount, inside the file system mounted at `parent` or on the
root. -/
theorem Accounted.mounted (kept : v.Accounted t) {k : Nat} {parent : Option Nat}
    {entry : MountPoint} (small : k < maxMountPoints) (free : (v.mount k).isUsed = false)
    (used : entry.isUsed = true) (openFiles : entry.openFiles = 0)
    (live : ∀ i, parent = some i → v.Live i) (file : v'.file = v.file)
    (here : v'.mount k = entry)
    (others : ∀ i, i ≠ k → (v'.mount i).isUsed = (v.mount i).isUsed)
    (counts : ∀ i, i ≠ k →
      (v'.mount i).openFiles = (v.mount i).openFiles + (parent == some i).toNat) :
    v'.Accounted (t.mountIn k parent) := by
  have dead : ∀ i, v.Live i → i ≠ k := by
    intro i alive same
    have inUse := alive.2
    rw [same, free] at inUse
    exact nomatch inUse
  have alive : ∀ i, v.Live i → v'.Live i := fun i live =>
    ⟨live.1, by rw [others i (dead i live)]; exact live.2⟩
  have inside : (t.mountIn k parent).inside k = parent := if_pos rfl
  have elsewhere : ∀ j, j ≠ k → (t.mountIn k parent).inside j = t.inside j := fun j other =>
    if_neg other
  have files : ∀ i, v'.filesOn (t.mountIn k parent) i = v.filesOn t i := by
    intro i
    unfold filesOn
    rw [file]
    rfl
  have within : ∀ i, v'.mountsIn (t.mountIn k parent) i =
      v.mountsIn t i + (parent == some i).toNat := by
    intro i
    have moved := mountsIn_change small others elsewhere i
    rw [here, inside, free, used, Bool.false_and, Bool.true_and] at moved
    exact moved
  constructor
  · rw [file]
    exact kept.ref_nonneg
  · rw [file]
    exact kept.used_iff
  · intro i
    rw [within i, files i]
    by_cases same : i = k
    · subst same
      have noFiles : v.filesOn t i = 0 := by
        apply slots_none
        intro fd _
        by_cases both : (v.file fd).isUsed = true ∧ t.opened fd = some i
        · exact absurd rfl (dead i (kept.opened_live fd i both.1 both.2))
        · rw [← Bool.not_eq_true, Bool.and_eq_true, beq_iff_eq]
          exact both
      have noMounts : v.mountsIn t i = 0 := by
        apply slots_none
        intro j _
        by_cases both : (v.mount j).isUsed = true ∧ t.inside j = some i
        · exact absurd rfl (dead i (kept.inside_live j i both.1 both.2))
        · rw [← Bool.not_eq_true, Bool.and_eq_true, beq_iff_eq]
          exact both
      have notItself : (parent == some i) = false :=
        beq_eq_false_iff_ne.mpr fun own => dead i (live i own) rfl
      rw [here, openFiles, noFiles, noMounts, notItself]
      rfl
    · rw [counts i same, kept.openFiles i]
      omega
  · intro fd i inUse opened
    rw [file] at inUse
    exact alive i (kept.opened_live fd i inUse opened)
  · intro j i inUse within
    by_cases same : j = k
    · rw [same, inside] at within
      exact alive i (live i within)
    · rw [others j same] at inUse
      rw [elsewhere j same] at within
      exact alive i (kept.inside_live j i inUse within)
  · rw [file]
    exact kept.plain

theorem Accounted.untouched (kept : v.Accounted t) {k : Nat} (free : v.freeMount = some k)
    (parent : Option Nat) : v.Accounted (t.mountIn k parent) := by
  have unused := (freeMount_free free).2
  apply kept.claimed (v.mount k) unused unused rfl rfl
  intro i
  split
  · rename_i same
    rw [same]
  · rfl

theorem addOpenFile_used (v : Vfs ι) (k i : Nat) :
    ((v.addOpenFile k).mount i).isUsed = (v.mount i).isUsed := by
  change (if i = k then _ else v.mount i : MountPoint).isUsed = _
  split
  · rename_i same
    rw [same]
  · rfl

theorem addOpenFile_openFiles (v : Vfs ι) (k i : Nat) :
    ((v.addOpenFile k).mount i).openFiles =
      (v.mount i).openFiles + (some k == some i).toNat := by
  change (if i = k then _ else v.mount i : MountPoint).openFiles = _
  split
  · rename_i same
    rw [same, beq_self_eq_true]
    rfl
  · rename_i other
    rw [beq_eq_false_iff_ne.mpr fun same => other (Option.some.inj same).symm]
    exact (Int.add_zero _).symm

theorem setMount_other (v : Vfs ι) {k i : Nat} (entry : MountPoint) (other : i ≠ k) :
    (v.setMount k entry).mount i = v.mount i := if_neg other

/-- The driver of a claimed entry refuses, and the entry stays unused. -/
theorem completeMount_refused (v : Vfs ι) {type i dev : Nat}
    (refused : ∀ mounted, ((v.fsType type).mount v.world dev).2 ≠ .value mounted) :
    (v.completeMount type i dev).2 = v.withInstances ((v.fsType type).mount v.world dev).1 := by
  unfold completeMount
  dsimp only
  cases asked : ((v.fsType type).mount v.world dev).2 with
  | error errno => rfl
  | hang => rfl
  | value mounted => exact absurd asked (refused mounted)

/-- The driver accepts: one entry is new and in use, with no file open on it. -/
theorem completeMount_accepted (v : Vfs ι) {type i dev : Nat} {mounted : Nat × Nat}
    (accepted : ((v.fsType type).mount v.world dev).2 = .value mounted) :
    (v.completeMount type i dev).2.file = v.file ∧
      (∀ j, j ≠ i → (v.completeMount type i dev).2.mount j = v.mount j) ∧
      ((v.completeMount type i dev).2.mount i).isUsed = true ∧
      ((v.completeMount type i dev).2.mount i).openFiles = 0 := by
  unfold completeMount
  dsimp only
  rw [accepted]
  refine ⟨rfl, fun j other => setMount_other _ _ other, ?_, ?_⟩
  · exact congrArg MountPoint.isUsed (if_pos rfl)
  · exact congrArg MountPoint.openFiles (if_pos rfl)

theorem Accounted.mountRoot (kept : v.Accounted t) {k : Nat} (free : v.freeMount = some k)
    (dev : Nat) (fs : String) :
    (v.vfsMount dev [slash] fs).2.Accounted (t.mountIn k none) := by
  have unused := freeMount_free free
  unfold vfsMount
  cases v.findType fs with
  | none => exact kept.untouched free none
  | some type =>
      rw [free]
      simp only [claimMount, if_pos]
      cases asked : ((v.fsType type).mount v.world dev).2 with
      | error errno =>
          rw [completeMount_refused (v.setMount k _) fun _ accepted =>
            nomatch asked.symm.trans accepted]
          exact kept.claimed { v.mount k with dev := allOnes, inode := allOnes } unused.2 unused.2 rfl
            rfl fun i => rfl
      | hang =>
          rw [completeMount_refused (v.setMount k _) fun _ accepted =>
            nomatch asked.symm.trans accepted]
          exact kept.claimed { v.mount k with dev := allOnes, inode := allOnes } unused.2 unused.2 rfl
            rfl fun i => rfl
      | value mounted =>
          obtain ⟨file, others, used, openFiles⟩ := @completeMount_accepted _
            (v.setMount k { v.mount k with dev := allOnes, inode := allOnes }) type k dev _ asked
          apply kept.mounted unused.1 unused.2 used openFiles _ file rfl
          · intro i other
            rw [others i other, setMount_other _ _ other]
          · intro i other
            rw [others i other, setMount_other _ _ other]
            exact (Int.add_zero _).symm
          · intro i none
            exact nomatch none

theorem Accounted.mountInside (kept : v.Accounted t) {k parent : Nat} {path : List UInt8}
    {s : Stat} (free : v.freeMount = some k) (inner : path ≠ [slash])
    (found : v.vfsStat path = .value (parent, s)) (dev : Nat) (fs : String)
    (accepts : ∀ type, v.findType fs = some type →
      ∃ mounted, ((v.fsType type).mount v.world dev).2 = .value mounted) :
    (v.vfsMount dev path fs).2.Accounted (t.mountIn k (some parent)) := by
  have unused := freeMount_free free
  unfold vfsMount
  cases named : v.findType fs with
  | none => exact kept.untouched free (some parent)
  | some type =>
      obtain ⟨mounted, accepted⟩ := accepts type named
      rw [free]
      simp only [claimMount, if_neg inner, found, Outcome.andThen_value]
      obtain ⟨file, others, used, openFiles⟩ := @completeMount_accepted _
        ((v.setMount k { v.mount k with dev := s.dev, inode := s.ino }).addOpenFile parent)
        type k dev _ accepted
      apply kept.mounted unused.1 unused.2 used openFiles _ file rfl
      · intro i other
        rw [others i other, addOpenFile_used, setMount_other _ _ other]
      · intro i other
        rw [others i other, addOpenFile_openFiles, setMount_other _ _ other]
      · intro i same
        obtain rfl := Option.some.inj same
        exact vfsStat_live found

theorem Accounted.mount (kept : v.Accounted t) {dev : Nat} {path : List UInt8} {fs : String}
    (meets : v.Meets t (.mount dev path fs)) :
    (v.vfsMount dev path fs).2.Accounted (t.next v (.mount dev path fs)) := by
  dsimp only [Tally.next]
  cases free : v.freeMount with
  | none =>
      unfold vfsMount
      cases v.findType fs with
      | none => exact kept
      | some type =>
          rw [free]
          exact kept
  | some k =>
      dsimp only
      by_cases root : path = [slash]
      · subst root
        rw [if_pos rfl]
        exact kept.mountRoot free dev fs
      · rw [if_neg root]
        cases found : v.vfsStat path with
        | error errno =>
            have same : (v.vfsMount dev path fs).2 = v := by
              unfold vfsMount
              cases v.findType fs with
              | none => rfl
              | some type =>
                  rw [free]
                  simp only [claimMount, if_neg root, found, Outcome.andThen_error]
            rw [same]
            exact kept
        | hang =>
            have same : (v.vfsMount dev path fs).2 = v := by
              unfold vfsMount
              cases v.findType fs with
              | none => rfl
              | some type =>
                  rw [free]
                  simp only [claimMount, if_neg root, found, Outcome.andThen_hang]
            rw [same]
            exact kept
        | value result =>
            obtain ⟨parent, s⟩ := result
            exact kept.mountInside free root found dev fs fun type named =>
              meets root k type parent s free named found

/-- What one call preserves. -/
theorem Accounted.step (kept : v.Accounted t) {call : Call} (meets : v.Meets t call) :
    (v.exec call).2.Accounted (t.next v call) := by
  cases call with
  | mount dev path fs => exact kept.mount meets
  | «open» path => exact kept.open path
  | openDevice device =>
      dsimp only [exec]
      exact kept.openDevice device
  | close fd =>
      by_cases inside : 0 ≤ fd ∧ fd < maxGlobalFiles
      · obtain ⟨open', opened⟩ := meets inside.1 inside.2
        exact kept.close inside.1 inside.2 open' opened
      · dsimp only [exec]
        rw [vfsClose_refused inside]
        exact kept

theorem Initial.accounted (start : v.Initial) : v.Accounted Tally.empty := by
  constructor
  · intro fd
    exact Int.le_of_eq (start.file fd).2.symm
  · intro fd
    rw [(start.file fd).1, (start.file fd).2]
    exact ⟨fun inUse => (nomatch inUse), fun positive => absurd positive (Int.lt_irrefl 0)⟩
  · intro i
    have files : v.filesOn Tally.empty i = 0 := slots_none fun fd _ => by
      rw [(start.file fd).1, Bool.false_and]
    have mounts : v.mountsIn Tally.empty i = 0 := slots_none fun j _ => by
      rw [(start.mount j).1, Bool.false_and]
    rw [files, mounts, (start.mount i).2]
    rfl
  · intro fd i inUse
    rw [(start.file fd).1] at inUse
    exact nomatch inUse
  · intro j i inUse
    rw [(start.mount j).1] at inUse
    exact nomatch inUse
  · intro fd inUse
    rw [(start.file fd).1] at inUse
    exact nomatch inUse

end Steps

theorem MeetingRun.accounted {v : Vfs ι} {t : Tally} (run : MeetingRun v t) : v.Accounted t := by
  induction run with
  | initial start => exact start.accounted
  | step call _ meets _ ih => exact ih.step meets

/-- In every run whose calls meet the condition the tables agree with the tally, and so
does every close that meets it. -/
theorem tables_accounted {ι : Type} {v : Vfs ι} {t : Tally} (run : MeetingRun v t) :
    v.Accounted t ∧ ∀ fd, v.Meets t (.close fd) → v.CloseRight fd := by
  have kept := run.accounted
  refine ⟨kept, fun fd meets => ⟨fun notOpen => ?_, fun low high open' => ?_⟩⟩
  · by_cases inside : 0 ≤ fd ∧ fd < maxGlobalFiles
    · exact absurd ⟨inside.1, inside.2, (meets inside.1 inside.2).1⟩ notOpen
    · exact vfsClose_refused inside
  · exact (kept.opened_live _ _ open' (meets low high).2).1

def emptyTables : Vfs Unit where
  fsType _ := oneEntry
  mount _ := ⟨false, 0, 0, 0, 0, 0, 0, 0⟩
  file _ := ⟨false, false, false, false, false, false, 0, 0, 0, 0, 0⟩
  world := ⟨fun _ => none, ()⟩

theorem emptyTables_initial : emptyTables.Initial := ⟨fun _ => ⟨rfl, rfl⟩, fun _ => ⟨rfl, rfl⟩⟩

def after (v : Vfs ι) (t : Tally) : List Call → Vfs ι × Tally
  | [] => (v, t)
  | call :: calls => after (v.exec call).2 (t.next v call) calls

/-- Every call meets the condition where it comes, and returns. -/
def Meeting (v : Vfs ι) (t : Tally) : List Call → Prop
  | [] => True
  | call :: calls => v.Meets t call ∧ (v.exec call).1 ≠ .hang ∧ Meeting (v.exec call).2 (t.next v call) calls

theorem MeetingRun.after {v : Vfs ι} {t : Tally} (run : MeetingRun v t) {calls : List Call}
    (meeting : v.Meeting t calls) : MeetingRun (v.after t calls).1 (v.after t calls).2 := by
  induction calls generalizing v t with
  | nil => exact run
  | cons call calls ih => exact ih (.step call run meeting.1 meeting.2.1) meeting.2.2

/-- A second instance is mounted on `/a`, `/a` and `/` are opened, and the first
descriptor is closed. -/
def comings : List Call :=
  [.mount 1 [slash] "one", .mount 2 [slash, 97] "one", .open [slash, 97], .open [slash], .close 0]

theorem comings_meeting : emptyTables.Meeting Tally.empty comings := by
  refine ⟨fun other => absurd rfl other, by decide +kernel, ?_, by decide +kernel,
    trivial, by decide +kernel, trivial, by decide +kernel, ?_, by decide +kernel, trivial⟩
  · intro _ _ _ _ _ _ _ _
    exact ⟨(0, 0), rfl⟩
  · intro _ _
    decide +kernel

/-- The tables after them: of the two descriptors one is left, on the root. -/
theorem comings_tables :
    ((emptyTables.after Tally.empty comings).1.file 0).isUsed = false ∧
      ((emptyTables.after Tally.empty comings).1.file 1).isUsed = true ∧
      ((emptyTables.after Tally.empty comings).1.mount 0).openFiles = 2 := by
  decide +kernel

theorem tables_accounted_comings :
    ((emptyTables.after Tally.empty comings).1.Accounted
        (emptyTables.after Tally.empty comings).2 ∧
      ∀ fd, (emptyTables.after Tally.empty comings).1.Meets
          (emptyTables.after Tally.empty comings).2 (.close fd) →
        (emptyTables.after Tally.empty comings).1.CloseRight fd) ∧
      ((emptyTables.after Tally.empty comings).1.file 0).isUsed = false ∧
      ((emptyTables.after Tally.empty comings).1.file 1).isUsed = true ∧
      ((emptyTables.after Tally.empty comings).1.mount 0).openFiles = 2 :=
  ⟨tables_accounted ((MeetingRun.initial emptyTables_initial).after comings_meeting),
    comings_tables⟩

/-- A descriptor that was never opened is closed with success, and its count of
references turns negative. -/
theorem closed_unopened :
    ¬ ∀ (ι : Type) (v : Vfs ι) (t : Tally), Reachable v t →
      v.Accounted t ∧ ∀ fd, v.CloseRight fd := by
  intro claim
  have refused := ((claim Unit emptyTables Tally.empty (.initial emptyTables_initial)).2 0).1
    fun inUse => nomatch inUse.2.2
  have result : (emptyTables.vfsClose 0).1 = 0 := by decide
  rw [refused] at result
  exact absurd result (by decide)

end TrollOS.Vfs
