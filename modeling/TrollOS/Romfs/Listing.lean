import TrollOS.Lib.Shares
import TrollOS.Romfs.Directory
import TrollOS.Vfs.Accounting

/-!
# Listing an open directory

`vfs_read_directory` asks the driver for one entry after the other, always with the
position of the descriptor.  It never moves that position, and so it stores the first
entry of the directory again and again.
-/

namespace TrollOS.Vfs

open TrollOS.Lib

variable {ι : Type} {v v₁ : Vfs ι} {path : List UInt8} {fd : Nat}

/-- What `vfs_open` leaves behind. -/
theorem vfsOpen_value (opened : v.vfsOpen path = (.value fd, v₁)) :
    fd < maxGlobalFiles ∧ ∃ mp s, v.vfsStat path = .value (mp, s) ∧
      v₁ = (v.setFile fd (openedEntry (v.file fd) mp s)).addOpenFile mp := by
  unfold vfsOpen at opened
  cases found : v.vfsStat path with
  | error errno =>
      rw [found] at opened
      exact nomatch (Prod.mk.inj opened).1
  | hang =>
      rw [found] at opened
      exact nomatch (Prod.mk.inj opened).1
  | value result =>
      obtain ⟨mp, s⟩ := result
      rw [found] at opened
      cases free : v.allocFile with
      | none =>
          rw [free] at opened
          exact nomatch (Prod.mk.inj opened).1
      | some slot =>
          rw [free] at opened
          obtain ⟨same, after⟩ := Prod.mk.inj opened
          obtain rfl := Outcome.value.inj same
          exact ⟨(allocFile_free free).1, mp, s, rfl, after.symm⟩

theorem opened_pair (opened : (v.vfsOpen path).1 = .value fd) :
    v.vfsOpen path = (.value fd, (v.vfsOpen path).2) := Prod.ext opened rfl

theorem opened_file (opened : v.vfsOpen path = (.value fd, v₁)) :
    fd < maxGlobalFiles ∧ ∃ mp s, v₁.file fd = openedEntry (v.file fd) mp s := by
  obtain ⟨small, mp, s, -, rfl⟩ := vfsOpen_value opened
  exact ⟨small, mp, s, if_pos rfl⟩

/-- The loop of `vfs_read_directory` stores what stands at the one position. -/
theorem readEntries_same {entry : FileEntry} {at' : Option Dirent}
    (yields : (v.fsType (v.mount entry.data).mountedFs).readDirectory v.world
      (v.mount entry.data).mountedInstance entry.inode entry.pos = .value at') (dirs : Nat)
    (found : List Dirent) :
    v.readEntries entry dirs found =
      .value (found ++ at'.elim [] fun de => List.replicate dirs de) := by
  induction dirs generalizing found with
  | zero =>
      unfold readEntries
      cases at' with
      | none => exact congrArg Outcome.value (List.append_nil found).symm
      | some de => exact congrArg Outcome.value (List.append_nil found).symm
  | succ dirs ih =>
      unfold readEntries
      rw [yields, Outcome.andThen_value]
      cases at' with
      | none => exact congrArg Outcome.value (List.append_nil found).symm
      | some de =>
          dsimp only
          rw [ih, List.append_assoc]
          rfl

end TrollOS.Vfs

namespace TrollOS.Romfs

open TrollOS.Lib Vfs

section Listed

variable {v v₁ : Vfs Instances} {path : List UInt8} {fd inst : Nat} {stale : ByteMem} {image : Image}
  {nodes : List Nat}

/-- Every call on a directory just opened stores copies of its first entry. -/
theorem vfsReadDirectory_opened (opened : v.vfsOpen path = (.value fd, v₁))
    (directory : (v₁.file fd).directory = true)
    (driver : (v₁.fsType (v₁.mount (v₁.file fd).data).mountedFs).readDirectory = readDirectory stale)
    (instance' : (v₁.mount (v₁.file fd).data).mountedInstance = inst)
    (mounted : Mounted v₁.world inst image)
    (lists : image.Directory (v₁.world.instances inst).rootInode (v₁.file fd).inode nodes) (k : Nat) :
    v₁.vfsReadDirectory fd k =
      .value ((nodes.map (image.dirent (v₁.world.instances inst).rootInode)).head?.elim []
        fun de => List.replicate k de) := by
  obtain ⟨small, mp, s, entry⟩ := opened_file opened
  have noDevice : (v₁.file fd).isDevice = false := by
    rw [entry] at directory ⊢
    exact Bool.not_eq_true' _ ▸ (Bool.and_eq_true _ _ ▸ directory).1
  have start : (v₁.file fd).pos = (0 : Nat) := by
    rw [entry]
    rfl
  have yields := readDirectory_eq mounted lists stale 0
  rw [← start, ← driver, ← instance'] at yields
  unfold vfsReadDirectory
  rw [if_neg (by omega), Int.toNat_natCast, noDevice, if_neg Bool.false_ne_true, directory,
    if_neg (by decide), readEntries_same yields, List.nil_append, instance', List.head?_map,
    List.head?_eq_getElem?]

/-- A directory just opened is listed by any calls as it is, in order and each entry once,
exactly when it is empty or the calls ask for no more than one entry together. -/
theorem listed_in_order_iff (opened : v.vfsOpen path = (.value fd, v₁))
    (directory : (v₁.file fd).directory = true)
    (driver : (v₁.fsType (v₁.mount (v₁.file fd).data).mountedFs).readDirectory = readDirectory stale)
    (instance' : (v₁.mount (v₁.file fd).data).mountedInstance = inst)
    (mounted : Mounted v₁.world inst image)
    (lists : image.Directory (v₁.world.instances inst).rootInode (v₁.file fd).inode nodes)
    (ks : List Nat) :
    (ks.map fun k => v₁.vfsReadDirectory fd k) =
        (shares (nodes.map (image.dirent (v₁.world.instances inst).rootInode)) ks).map .value ↔
      nodes = [] ∨ ks.sum ≤ 1 := by
  have answers : (ks.map fun k => v₁.vfsReadDirectory fd k) =
      (ks.map fun k => (nodes.map (image.dirent (v₁.world.instances inst).rootInode)).head?.elim []
        fun de => List.replicate k de).map .value := by
    rw [List.map_map]
    exact List.map_congr_left fun k _ =>
      vfsReadDirectory_opened opened directory driver instance' mounted lists k
  rw [answers, (List.map_injective_iff.mpr fun _ _ same => Outcome.value.inj same).eq_iff]
  cases nodes with
  | nil => exact iff_of_true (shares_nil ks).symm (Or.inl rfl)
  | cons first rest =>
      have named := List.nodup_cons.mp lists.distinct
      have absent : image.dirent (v₁.world.instances inst).rootInode first ∉
          rest.map (image.dirent (v₁.world.instances inst).rootInode) := by
        intro member
        obtain ⟨other, inRest, same⟩ := List.mem_map.mp member
        exact named.1 (List.mem_map.mpr ⟨other, inRest, congrArg Dirent.name same⟩)
      rw [List.map_cons, or_iff_right (List.cons_ne_nil first rest), ← copies_first absent ks]
      rfl

end Listed

def smallTables : Vfs Instances where
  fsType _ := fsType fun _ => 0
  mount i := ⟨i == 0, 0, allOnes, allOnes, 0, 0, 0, 0⟩
  file _ := ⟨false, false, false, false, false, false, 0, 0, 0, 0, 0⟩
  world := smallWorld

def rootOpened : Vfs Instances := (smallTables.vfsOpen [slash]).2

theorem rootOpened_file : (smallTables.vfsOpen [slash]).1 = .value 0 ∧
    (rootOpened.file 0).directory = true ∧ (rootOpened.file 0).inode = 0 := by
  decide +kernel

theorem rootOpened_opened : smallTables.vfsOpen [slash] = (.value 0, rootOpened) := by
  unfold rootOpened
  exact opened_pair rootOpened_file.1

theorem rootOpened_tables : rootOpened.world = smallWorld ∧ rootOpened.fsType = smallTables.fsType ∧
    ∀ i, (rootOpened.mount i).mountedInstance = 0 := by
  obtain ⟨-, mp, s, -, after⟩ := vfsOpen_value rootOpened_opened
  rw [after]
  refine ⟨rfl, rfl, fun i => ?_⟩
  unfold addOpenFile setMount
  dsimp only
  split
  · rfl
  · rfl

theorem rootOpened_directory :
    smallImage.Directory (rootOpened.world.instances 0).rootInode (rootOpened.file 0).inode [2, 4] := by
  rw [rootOpened_tables.1, rootOpened_file.2.2]
  exact smallImage_directory

theorem listed_in_order_one :
    ([0, 1].map fun k => rootOpened.vfsReadDirectory (0 : Nat) k) =
        (shares ([2, 4].map (smallImage.dirent 2)) [0, 1]).map .value ↔
      [2, 4] = [] ∨ [0, 1].sum ≤ 1 := by
  have mounted : Mounted rootOpened.world 0 smallImage := by
    rw [rootOpened_tables.1]
    exact smallWorld_mounted
  have listed := listed_in_order_iff rootOpened_opened rootOpened_file.2.1 (by rw [rootOpened_tables.2.1]; rfl)
    (rootOpened_tables.2.2 _) mounted rootOpened_directory [0, 1]
  rwa [rootOpened_tables.1] at listed

/-- Two calls for one entry each on a directory of two store its first entry twice. -/
theorem listed_twice :
    ¬ ∀ (v v₁ : Vfs Instances) (path : List UInt8) (fd inst : Nat) (stale : ByteMem) (image : Image)
        (nodes : List Nat), v.vfsOpen path = (.value fd, v₁) → (v₁.file fd).directory = true →
      (v₁.fsType (v₁.mount (v₁.file fd).data).mountedFs).readDirectory = readDirectory stale →
      (v₁.mount (v₁.file fd).data).mountedInstance = inst → Mounted v₁.world inst image →
      image.Directory (v₁.world.instances inst).rootInode (v₁.file fd).inode nodes →
      ∀ ks : List Nat, (ks.map fun k => v₁.vfsReadDirectory fd k) =
        (shares (nodes.map (image.dirent (v₁.world.instances inst).rootInode)) ks).map .value := by
  intro claim
  have mounted : Mounted rootOpened.world 0 smallImage := by
    rw [rootOpened_tables.1]
    exact smallWorld_mounted
  have listed := claim smallTables rootOpened [slash] 0 0 (fun _ => 0) smallImage [2, 4] rootOpened_opened
    rootOpened_file.2.1 (by rw [rootOpened_tables.2.1]; rfl) (rootOpened_tables.2.2 _) mounted
    rootOpened_directory [1, 1]
  obtain ⟨-, tail⟩ := List.cons.inj listed
  obtain ⟨second, -⟩ := List.cons.inj tail
  dsimp only at second
  rw [vfsReadDirectory_opened rootOpened_opened rootOpened_file.2.1 (by rw [rootOpened_tables.2.1]; rfl)
    (rootOpened_tables.2.2 _) mounted rootOpened_directory 1, rootOpened_tables.1] at second
  have same := congrArg (List.map Dirent.name) (Outcome.value.inj second)
  exact absurd same (by decide +kernel)

end TrollOS.Romfs
