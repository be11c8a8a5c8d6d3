import TrollOS.Romfs.Layout

/-!
# Paths in an image

Paths of names on a volume that is mounted on `/`.  The walk of `_resolv_ino` follows the tree, and
what it arrives at has the type of the item; a step that is missing or goes on below a file stops it.
-/

namespace TrollOS.Romfs

open TrollOS.Lib Vfs

def pathOf (names : List (List UInt8)) : List UInt8 := slash :: joined names

/-- A volume is mounted as `k` on `/`, and nothing is mounted inside it. -/
structure OnRoot (v : Vfs Instances) (k : Nat) (stale : ByteMem) (image : Image) (start : Nat) : Prop where
  root : v.rootMount = some k
  single : ∀ dev ino, ino ≠ allOnes → v.isMountpoint dev ino = none
  driver : v.fsType (v.mount k).mountedFs = fsType stale
  mounted : Mounted v.world (v.mount k).mountedInstance image
  rootInode : (v.world.instances (v.mount k).mountedInstance).rootInode = start / 16
  large : 16 ≤ start
  fits : start < 1024

/-! ## Names -/

theorem lookup_mem {entries : Entries} {fname : List UInt8} {item : Item}
    (looked : entries.lookup fname = some item) : fname ∈ entries.names := by
  by_contra absent
  rw [Image.lookup_none absent] at looked
  cases looked

theorem named_proper {entries : Entries} (named : entries.Named) : ∀ name ∈ entries.names, EntryName name := by
  induction entries with
  | nil => exact fun name member => absurd member List.not_mem_nil
  | file first content rest ih =>
      intro name member
      rcases List.mem_cons.1 member with rfl | later
      · exact named.1
      · exact ih named.2.2 name later
  | dir first inner rest inner_ih ih =>
      intro name member
      rcases List.mem_cons.1 member with rfl | later
      · exact named.1
      · exact ih named.2.2.2 name later

theorem lookup_named {entries inner : Entries} {fname : List UInt8} (named : entries.Named)
    (looked : entries.lookup fname = some (.dir inner)) : inner.Named := by
  induction entries with
  | nil => cases looked
  | file name content rest ih =>
      unfold Entries.lookup at looked
      split at looked
      · cases looked
      · exact ih named.2.2 looked
  | dir name deeper rest inner_ih ih =>
      unfold Entries.lookup at looked
      split at looked
      · obtain rfl := Item.dir.inj (Option.some.inj looked)
        exact named.2.2.1
      · exact ih named.2.2.2 looked

/-! ## Finding -/

theorem find_nil (item : Item) : item.find [] = some item := by
  cases item with
  | file content => rfl
  | dir entries => rfl

theorem find_cons (entries : Entries) (name : List UInt8) (names : List (List UInt8)) :
    (Item.dir entries).find (name :: names) = (entries.lookup name).bind fun next => next.find names := by
  rw [Item.find.eq_def]
  cases looked : entries.lookup name with
  | none =>
      dsimp only
      rw [looked]
      rfl
  | some next =>
      dsimp only
      rw [looked]
      rfl

theorem find_file {content : List UInt8} {names : List (List UInt8)} {item : Item}
    (found : (Item.file content).find names = some item) : names = [] ∧ item = .file content := by
  cases names with
  | nil => exact ⟨rfl, (Option.some.inj found).symm⟩
  | cons name names => cases found

theorem find_step {entries : Entries} {name : List UInt8} {names : List (List UInt8)} {item : Item}
    (found : (Item.dir entries).find (name :: names) = some item) :
    ∃ next, entries.lookup name = some next ∧ next.find names = some item := by
  rw [find_cons] at found
  exact Option.bind_eq_some_iff.1 found

theorem find_append (item : Item) (names others : List (List UInt8)) :
    item.find (names ++ others) = (item.find names).bind fun inner => inner.find others := by
  induction names generalizing item with
  | nil =>
      rw [find_nil]
      rfl
  | cons name names ih =>
      cases item with
      | file content => rfl
      | dir entries =>
          rw [List.cons_append, find_cons, find_cons, Option.bind_assoc]
          congr 1
          funext next
          exact ih next

theorem find_names {entries : Entries} (named : entries.Named) {names : List (List UInt8)} {item : Item}
    (found : (Item.dir entries).find names = some item) : ∀ name ∈ names, StepName name ∧ name.length ≤ nameMax := by
  induction names generalizing entries with
  | nil => exact fun name member => absurd member List.not_mem_nil
  | cons first names ih =>
      obtain ⟨next, looked, rest⟩ := find_step found
      have proper := named_proper named first (lookup_mem looked)
      intro name member
      rcases List.mem_cons.1 member with rfl | later
      · exact ⟨⟨proper.nonempty, proper.plain⟩, Nat.le_of_lt (Nat.lt_trans proper.short (by decide))⟩
      · cases next with
        | file content =>
            rw [(find_file rest).1] at later
            exact absurd later List.not_mem_nil
        | dir deeper => exact ih (lookup_named named looked) rest name later

/-- What is found has been looked up in a directory. -/
theorem find_last {entries : Entries} {item : Item} {names : List (List UInt8)} (more : names ≠ [])
    (found : (Item.dir entries).find names = some item) :
    ∃ before last inner, names = before ++ [last] ∧ (Item.dir entries).find before = some (.dir inner) ∧
      inner.lookup last = some item := by
  obtain ⟨before, last, rfl⟩ := (List.eq_nil_or_concat names).resolve_left more
  rw [List.concat_eq_append, find_append] at found
  obtain ⟨holder, there, looked⟩ := Option.bind_eq_some_iff.1 found
  cases holder with
  | file content => cases looked
  | dir inner =>
      obtain ⟨next, inside, here⟩ := find_step looked
      rw [find_nil] at here
      exact ⟨before, last, inner, List.concat_eq_append, there, inside.trans here⟩

/-! ## Walking -/

section Walk

variable {v : Vfs Instances} {k start : Nat} {stale : ByteMem} {image : Image} {front : List (List UInt8)}
  {entries inner : Entries} {inode : Nat} {fname : List UInt8} {item : Item}

/-- A lookup in a directory, and what the resolution makes of it. -/
theorem OnRoot.lookup (on : OnRoot v k stale image start) (lists : image.Lists start inode front entries)
    (nonempty : fname ≠ []) (short : fname.length ≤ nameMax) (other : fname ∉ front) :
    (∃ item node s, entries.lookup fname = some item ∧ image.Found start node item ∧
        v.stat ⟨k, inode⟩ fname = .value s ∧ s.ino = relative (start / 16) node ∧ s.mode = image.mode node ∧
          v.isMountpoint s.dev s.ino = none) ∨
      (entries.lookup fname = none ∧ v.stat ⟨k, inode⟩ fname = .error (-enoent)) := by
  have driver : v.stat ⟨k, inode⟩ fname = stat stale v.world (v.mount k).mountedInstance inode fname := by
    unfold Vfs.stat
    rw [on.driver]
    rfl
  rw [driver]
  rcases lists.stat on.mounted on.rootInode stale nonempty short other with
    ⟨item, node, s, looked, found, answer, ino, mode⟩ | missing
  · refine Or.inl ⟨item, node, s, looked, found, answer, ino, mode, on.single s.dev s.ino ?_⟩
    rw [ino]
    exact found.plain on.large on.fits
  · exact Or.inr missing

theorem OnRoot.enter_dir (on : OnRoot v k stale image start) (lists : image.Lists start inode front entries)
    (nonempty : fname ≠ []) (short : fname.length ≤ nameMax) (other : fname ∉ front)
    (looked : entries.lookup fname = some (.dir inner)) :
    ∃ inode', v.enter ⟨k, inode⟩ fname = .value ⟨k, inode'⟩ ∧ image.Lists start inode' [] inner := by
  rcases on.lookup lists nonempty short other with
    ⟨item, node, s, looked', found, answer, ino, mode, plain⟩ | ⟨none, -⟩
  · obtain rfl := Option.some.inj (looked.symm.trans looked')
    have isDir : s.isDir = true := found.mode mode
    refine ⟨relative (start / 16) node, ?_, found.lists on.fits⟩
    rw [enter_found answer (by rw [isDir, Bool.or_true]), cross_plain plain, ino]
  · rw [looked] at none
    cases none

theorem OnRoot.enter_file (on : OnRoot v k stale image start) (lists : image.Lists start inode front entries)
    (nonempty : fname ≠ []) (short : fname.length ≤ nameMax) (other : fname ∉ front) {content : List UInt8}
    (looked : entries.lookup fname = some (.file content)) :
    v.enter ⟨k, inode⟩ fname = .error (-enotdir) := by
  rcases on.lookup lists nonempty short other with
    ⟨item, node, s, looked', found, answer, ino, mode, plain⟩ | ⟨none, -⟩
  · obtain rfl := Option.some.inj (looked.symm.trans looked')
    have isReg : s.isReg = true := found.mode mode
    have notDir : ¬ s.isDir = true := by
      unfold Stat.isDir
      unfold Stat.isReg at isReg
      rw [beq_iff_eq.1 isReg]
      decide
    refine enter_blocked answer ?_
    rw [plain, Option.isSome_none, Bool.false_or]
    exact notDir
  · rw [looked] at none
    cases none

/-- A directory with proper entries, none of them named like what is in front. -/
structure Stands (image : Image) (start inode : Nat) (front : List (List UInt8)) (entries : Entries) : Prop where
  lists : image.Lists start inode front entries
  named : entries.Named
  apart : ∀ name ∈ entries.names, name ∉ front
  short : ∀ name ∈ front, name.length < nameMax

theorem Stands.step (stands : Stands image start inode front entries) (looked : entries.lookup fname = some item) :
    fname ≠ [] ∧ fname.length ≤ nameMax ∧ fname ∉ front := by
  have member := lookup_mem looked
  have proper := named_proper stands.named fname member
  exact ⟨proper.nonempty, Nat.le_of_lt (Nat.lt_trans proper.short (by decide)), stands.apart fname member⟩

/-- The walk follows the names of directories. -/
theorem OnRoot.descend (on : OnRoot v k stale image start) (stands : Stands image start inode front entries)
    {names others : List (List UInt8)} (more : others ≠ []) (found : (Item.dir entries).find names = some (.dir inner)) :
    ∃ inode', v.walk ⟨k, inode⟩ (names ++ others) = v.walk ⟨k, inode'⟩ others ∧
      Stands image start inode' (if names = [] then front else []) inner := by
  induction names generalizing inode front entries with
  | nil =>
      obtain rfl := Item.dir.inj (Option.some.inj found)
      exact ⟨inode, rfl, stands⟩
  | cons name names ih =>
      obtain ⟨next, looked, rest⟩ := find_step found
      cases next with
      | file content => cases (find_file rest).2
      | dir deeper =>
          obtain ⟨nonempty, short, other⟩ := stands.step looked
          obtain ⟨inode', entered, lists⟩ := on.enter_dir stands.lists nonempty short other looked
          have stands' : Stands image start inode' [] deeper :=
            ⟨lists, lookup_named stands.named looked, fun _ _ => List.not_mem_nil,
              fun _ member => absurd member List.not_mem_nil⟩
          obtain ⟨last, walked, there⟩ := ih stands' rest
          refine ⟨last, ?_, ?_⟩
          · rw [List.cons_append, walk_cons (List.append_ne_nil_of_right_ne_nil names more), entered,
              Outcome.andThen_value]
            exact walked
          · rw [ite_self] at there
            exact there

/-! ## Resolving -/

/-- The path is taken apart into its names, up to the last ones. -/
theorem OnRoot.resolvIno (on : OnRoot v k stale image start) {names rest : List (List UInt8)}
    (short : ∀ name ∈ names, StepName name ∧ name.length ≤ nameMax) (more : rest ≠ [])
    (steps : ∀ name ∈ rest, StepName name) (first : names ≠ [] ∨ rest.length = 1) :
    ∃ fuel, (joined rest).length ≤ fuel ∧ pieces fuel (joined rest) ≠ [] ∧
      v.resolvIno (pathOf (names ++ rest)) 0 = v.walk ⟨k, 0⟩ (names ++ pieces fuel (joined rest)) := by
  obtain ⟨fuel, enough, parts⟩ := allPieces_joined short more steps first
  obtain ⟨char, tail, split, -⟩ := joined_first more steps
  refine ⟨fuel, enough, ?_, ?_⟩
  · rw [split] at enough ⊢
    obtain ⟨less, rfl⟩ := Nat.exists_eq_succ_of_ne_zero (Nat.ne_of_gt (Nat.lt_of_lt_of_le (Nat.succ_pos _) enough))
    exact List.cons_ne_nil _ _
  · unfold pathOf
    rw [resolvIno_eq v on.root, parts]

/-- `vfs_stat` of what a path of names leads to. -/
theorem OnRoot.stat_found (on : OnRoot v k stale image start) (stands : Stands image start 0 front entries)
    {names : List (List UInt8)} (more : names ≠ []) (found : (Item.dir entries).find names = some item) :
    ∃ node s, v.vfsStat (pathOf names) = .value (k, s) ∧ s.ino = relative (start / 16) node ∧ item.Described s ∧
      image.Found start node item := by
  obtain ⟨before, last, inner, rfl, there, looked⟩ := find_last more found
  have short := find_names stands.named found
  obtain ⟨step, fits⟩ := short last (List.mem_append_right _ List.mem_cons_self)
  obtain ⟨fuel, enough, -, resolved⟩ := on.resolvIno (fun name member => short name (List.mem_append_left _ member))
    (List.cons_ne_nil last []) (fun name member => (short name (List.mem_append_right _ member)).1) (Or.inr rfl)
  rw [joined_single] at enough resolved
  obtain ⟨others, piece, none⟩ := pieces_step step enough
  obtain ⟨inode, walked, stands'⟩ := on.descend stands (List.cons_ne_nil last []) there
  rw [piece, none fits, List.take_of_length_le fits, walked] at resolved
  obtain ⟨nonempty, -, other⟩ := stands'.step looked
  rcases on.lookup stands'.lists nonempty fits other with ⟨item', node, s, looked', here, answer, ino, -⟩ | ⟨none, -⟩
  · obtain rfl := Option.some.inj (looked.symm.trans looked')
    unfold walk at resolved
    rw [answer, Outcome.andThen_value, ino] at resolved
    obtain ⟨s', described, ino', kind⟩ := here.stat on.mounted on.rootInode stale
    refine ⟨node, s', ?_, ino', kind, here⟩
    unfold vfsStat
    rw [resolved, Outcome.andThen_value, on.driver]
    change (statInode stale v.world _ _).andThen _ = _
    rw [described]
    rfl
  · rw [looked] at none
    cases none

theorem walk_missing {ι : Type} {v : Vfs ι} {at' : Place} {name : List UInt8} {errno : Int}
    (answer : v.stat at' name = .error errno) (others : List (List UInt8)) :
    v.walk at' (name :: others) = .error errno := by
  by_cases last : others = []
  · rw [last]
    unfold walk
    rw [answer]
    rfl
  · rw [walk_cons last]
    unfold enter
    rw [answer]
    rfl

/-- A name cut to the length of the buffer is no other name. -/
theorem Stands.cut (stands : Stands image start inode front entries) (other : fname ∉ front)
    (missing : entries.lookup fname = none) :
    fname.take nameMax ∉ front ∧ entries.lookup (fname.take nameMax) = none := by
  by_cases fits : fname.length ≤ nameMax
  · rw [List.take_of_length_le fits]
    exact ⟨other, missing⟩
  · have long : (fname.take nameMax).length = nameMax := by
      rw [List.length_take]
      omega
    constructor
    · intro member
      have short := stands.short _ member
      omega
    · refine Image.lookup_none fun member => ?_
      have short := (named_proper stands.named _ member).short
      unfold nameMax at long short
      omega

/-- `vfs_stat` of a path whose last step is missing. -/
theorem OnRoot.stat_missing (on : OnRoot v k stale image start) (stands : Stands image start 0 front entries)
    {names : List (List UInt8)} (found : (Item.dir entries).find names = some (.dir inner)) (step : StepName fname)
    (other : names = [] → fname ∉ front) (missing : inner.lookup fname = none) :
    v.vfsStat (pathOf (names ++ [fname])) = .error (-enoent) := by
  obtain ⟨fuel, enough, -, resolved⟩ := on.resolvIno (find_names stands.named found) (List.cons_ne_nil fname [])
    (fun name member => List.mem_singleton.1 member ▸ step) (Or.inr rfl)
  rw [joined_single] at enough resolved
  obtain ⟨others, piece, -⟩ := pieces_step step enough
  obtain ⟨inode, walked, stands'⟩ := on.descend stands (List.cons_ne_nil (fname.take nameMax) others) found
  rw [piece, walked] at resolved
  have other' : fname ∉ if names = [] then front else [] := by
    split
    · rename_i here
      exact other here
    · exact List.not_mem_nil
  obtain ⟨apart, none⟩ := stands'.cut other' missing
  have nonempty : fname.take nameMax ≠ [] := by
    rw [ne_eq, List.take_eq_nil_iff, not_or]
    exact ⟨by decide, step.nonempty⟩
  rcases on.lookup stands'.lists nonempty (List.length_take_le nameMax fname) apart with
    ⟨item, node, s, looked, -⟩ | ⟨-, answer⟩
  · rw [none] at looked
    cases looked
  · unfold vfsStat
    rw [resolved, walk_missing answer]
    rfl

/-- `vfs_stat` of a path that goes on below a file. -/
theorem OnRoot.stat_below (on : OnRoot v k stale image start) (stands : Stands image start 0 front entries)
    {names others : List (List UInt8)} {content : List UInt8}
    (found : (Item.dir entries).find names = some (.file content)) (more : others ≠ [])
    (steps : ∀ name ∈ others, StepName name) : v.vfsStat (pathOf (names ++ others)) = .error (-enotdir) := by
  have some : names ≠ [] := by
    rintro rfl
    cases found
  obtain ⟨fuel, -, behind, resolved⟩ := on.resolvIno (find_names stands.named found) more steps (Or.inl some)
  obtain ⟨before, last, inner, rfl, there, looked⟩ := find_last some found
  obtain ⟨inode, walked, stands'⟩ := on.descend stands (List.cons_ne_nil last (pieces fuel (joined others))) there
  obtain ⟨nonempty, fits, other⟩ := stands'.step looked
  rw [List.append_cons] at walked
  rw [walked, walk_cons behind, on.enter_file stands'.lists nonempty fits other looked] at resolved
  unfold vfsStat
  rw [resolved]
  rfl

/-- A lookup of nothing finds the directory itself. -/
theorem stat_self {w : World Instances} {inst inode : Nat} {image : Image} (mounted : Mounted w inst image)
    (stale : ByteMem) (inside : image.Inside (absolute (w.instances inst).rootInode inode)) :
    stat stale w inst inode [] =
      statInode stale w inst (relative (w.instances inst).rootInode (absolute (w.instances inst).rootInode inode)) := by
  obtain ⟨after, read, -⟩ := readUnaligned_shows mounted inside (show 16 + nameMax + 1 ≠ 0 by decide) stale
  unfold stat
  dsimp only
  rw [read, Outcome.andThen_value, if_pos rfl]

/-- `vfs_stat` of `/`. -/
theorem OnRoot.stat_root {label : List UInt8} (on : OnRoot v k stale image (Image.rootOffset label))
    (volume : image.Volume label entries) :
    ∃ s, v.vfsStat [slash] = .value (k, s) ∧ (Item.dir entries).Described s := by
  obtain ⟨large, fits, -⟩ := Image.rootOffset_bounds volume
  obtain ⟨inside, type, size⟩ := volume.rootItem
  have here : absolute (Image.rootOffset label / 16) 0 = Image.rootOffset label / 16 := by
    unfold absolute u32
    omega
  have back : relative (Image.rootOffset label / 16) (Image.rootOffset label / 16) = 0 := by
    unfold relative u32
    omega
  obtain ⟨s, answer, ino, mode, size'⟩ :=
    @statInode_shown _ _ _ on.mounted stale (Image.rootOffset label / 16) inside (by omega)
  rw [on.rootInode, back] at answer ino
  have self : v.stat ⟨k, 0⟩ [] = .value s := by
    unfold Vfs.stat
    rw [on.driver]
    change stat stale v.world _ 0 [] = _
    rw [stat_self on.mounted stale (by rw [on.rootInode, here]; exact inside), on.rootInode, here, back, answer]
  refine ⟨s, ?_, ?_, size'.trans size⟩
  · unfold vfsStat
    rw [resolvIno_eq v on.root]
    change ((v.walk ⟨k, 0⟩ [[]]).andThen _) = _
    unfold walk
    rw [self, Outcome.andThen_value, Outcome.andThen_value, ino, on.driver]
    change (statInode stale v.world _ 0).andThen _ = _
    rw [answer]
    rfl
  · refine beq_iff_eq.2 ?_
    rw [mode]
    exact byteToMode_dir type

end Walk

end TrollOS.Romfs
