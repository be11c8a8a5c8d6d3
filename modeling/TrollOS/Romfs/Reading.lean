import TrollOS.Romfs.Listing

/-!
# Reading a file

`fs_romfs_read` cuts the count at the end of the file, in 64 bits and then in 32, and looks
for the end of the name in at most 16 pieces of 16 bytes.  Beyond the end of the file the
cut count wraps around, and behind a long name the data are looked for too early.
-/

namespace TrollOS.Romfs

open TrollOS.Lib Vfs

/-! ## The count -/

def wanted (size : Int) (count : Nat) (pos : Int) : Nat :=
  if size < toInt64 (pos + count) then (toInt64 (size - pos) % 4294967296).toNat else count

section Count

variable {size count pos : Nat}

/-- Up to the end of the file it goes for what remains. -/
theorem wanted_within (sizeSmall : size < 2147483648) (countSmall : count < 4294967296)
    (within : pos ≤ size) : wanted size count pos = min count (size - pos) := by
  unfold wanted
  rw [toInt64_eq (by omega) (by omega), toInt64_eq (by omega) (by omega)]
  split
  · omega
  · omega

/-- Beyond the end the difference wraps around. -/
theorem wanted_beyond (sizeSmall : size < 2147483648) (beyond : size < pos)
    (sum : pos + count < 9223372036854775808) :
    wanted size count pos = (((size : Int) - pos) % 4294967296).toNat := by
  unfold wanted
  rw [toInt64_eq (by omega) (by omega), toInt64_eq (by omega) (by omega), if_pos (by omega)]

/-- A sum out of range is taken for negative, and nothing is cut. -/
theorem wanted_wrapped (posSmall : pos < 9223372036854775808) (countSmall : count < 4294967296)
    (sum : 9223372036854775808 ≤ pos + count) : wanted size count pos = count := by
  unfold wanted
  rw [toInt64_wrapped (by omega) (by omega), if_neg (by omega)]

/-- It goes for nothing beyond the end only if the difference is a multiple of 2 ^ 32. -/
theorem wanted_beyond_zero (sizeSmall : size < 2147483648) (posSmall : pos < 9223372036854775808)
    (countSmall : count < 4294967296) (beyond : size < pos) :
    wanted size count pos = 0 ↔ 4294967296 ∣ pos - size ∧ pos + count < 9223372036854775808 := by
  by_cases sum : pos + count < 9223372036854775808
  · rw [wanted_beyond sizeSmall beyond sum]
    omega
  · rw [wanted_wrapped posSmall countSmall (by omega)]
    omega

theorem wanted_lt (countSmall : count < 4294967296) (pos : Int) :
    wanted size count pos < 4294967296 := by
  unfold wanted
  split
  · omega
  · omega

end Count

/-- The value returned is zero only for a count of zero. -/
theorem toInt32_eq_zero {n : Nat} (small : n < 4294967296) : toInt32 n = 0 ↔ n = 0 := by
  unfold toInt32
  split
  · omega
  · omega

/-! ## The name -/

namespace Image

/-- Where the bytes of a file are: behind the name and its padding. -/
def fileStart (image : Image) (inode : Nat) : Nat :=
  nodeOffset inode + 16 + 16 * ((image.name inode).length / 16 + 1)

/-- Where `fs_romfs_read` looks for them. -/
def scanStart (image : Image) (inode : Nat) : Nat :=
  nodeOffset inode + 16 + 16 * (min ((image.name inode).length / 16) 16 + 1)

end Image

section Name

variable {image : Image} {w : World Instances} {inst inode : Nat}

/-- The scan stops at the piece with the NUL, or after 16 pieces. -/
theorem nameRounds_eq (mounted : Mounted w inst image) (short : (image.name inode).length < nameMax)
    (inside : nodeOffset inode + 16 + (image.name inode).length < image.len)
    (small : nodeOffset inode + 16 + (image.name inode).length < 4294967296) {left i : Nat} (rounds : left + i = 16)
    (before : i ≤ (image.name inode).length / 16) (buff : ByteMem) :
    nameRounds w (w.instances inst).device inode left i buff =
      .value (min ((image.name inode).length / 16) 16) := by
  induction left generalizing i buff with
  | zero =>
      unfold nameRounds
      congr 1
      omega
  | succ left ih =>
      have offset : u32 (nodeOffset inode + 16 + i * 16) = nodeOffset inode + 16 + i * 16 :=
        u32_eq (by omega)
      obtain ⟨after, read, bytes⟩ := readUnaligned_at mounted
        (show nodeOffset inode + 16 + i * 16 ≤ image.len by omega) (show 16 ≠ 0 by decide) buff
      unfold nameRounds
      rw [offset, read, Outcome.andThen_value]
      by_cases here : i = (image.name inode).length / 16
      · have ends : after ((image.name inode).length - i * 16) = 0 := by
          rw [bytes _ (by omega) (by omega)]
          have nul : image.node inode (16 + (image.name inode).length) = 0 := cString_end short
          rw [← nul]
          unfold Image.node
          congr 1
          omega
        have some : ((List.range 16).any fun j => after j == 0) = true := by
          rw [List.any_eq_true]
          exact ⟨_, List.mem_range.mpr (by omega), beq_iff_eq.mpr ends⟩
        rw [if_pos some]
        congr 1
        omega
      · have none : ¬ ((List.range 16).any fun j => after j == 0) = true := by
          intro some
          obtain ⟨j, member, zero⟩ := List.any_eq_true.mp some
          have bound := List.mem_range.mp member
          have nonzero : image.node inode (16 + (i * 16 + j)) ≠ 0 :=
            cString_nonzero (show i * 16 + j < (image.name inode).length by omega)
          apply nonzero
          rw [← beq_iff_eq.mp zero, bytes j bound (by omega)]
          unfold Image.node
          congr 1
          omega
        rw [if_neg none]
        exact ih (by omega) (by omega) after

theorem readData_at (mounted : Mounted w inst image) {offset : Nat} (within : offset ≤ image.len)
    (n : Nat) : readData w (w.instances inst).device n offset = .value (image.read offset n) := by
  obtain ⟨d, found, read, write, blksize, rfl, serves⟩ := mounted.device
  unfold readData
  rw [if_neg (by omega)]
  by_cases none : n = 0
  · rw [if_pos none, none]
    unfold Image.read
    rw [Nat.zero_min]
    rfl
  · rw [if_neg none, found, ← serves (w.instances inst).device offset n within]

theorem readData_value (mounted : Mounted w inst image) (n : Nat) (offset : Int) :
    ∃ data, readData w (w.instances inst).device n offset = .value data ∧ (n = 0 → data = []) := by
  obtain ⟨d, found, read, write, blksize, rfl, -⟩ := mounted.device
  unfold readData
  split
  · exact ⟨[], rfl, fun _ => rfl⟩
  · split
    · exact ⟨[], rfl, fun _ => rfl⟩
    · rename_i some
      rw [found]
      exact ⟨_, rfl, fun none => absurd none some⟩

/-- `fs_romfs_read` in one line. -/
theorem read_eq (mounted : Mounted w inst image) (stale : ByteMem) {node size : Nat}
    (isNode : absolute (w.instances inst).rootInode inode = node)
    (short : (image.name node).length < nameMax) (isSize : makeInt (image.node node) 8 = size)
    (inside : image.fileStart node + size ≤ image.len) (small : image.fileStart node < 4294967296) (count : Nat)
    (pos : Int) :
    read stale w inst inode count pos =
      (readData w (w.instances inst).device (wanted size count pos)
        (toInt64 (image.scanStart node + pos))).andThen
          fun data => .value (toInt32 (wanted size count pos), data) := by
  unfold Image.fileStart at inside small
  have header : image.Inside node := by
    unfold Image.Inside
    omega
  obtain ⟨after, read, shows'⟩ := readUnaligned_shows mounted header (show 16 ≠ 0 by decide) stale
  have rounds := nameRounds_eq mounted short (by omega) (by omega) (show 16 + 0 = 16 by decide)
    (Nat.zero_le _) after
  have start : u32 (nodeOffset node + 16 + (min ((image.name node).length / 16) 16 + 1) * 16) =
      image.scanStart node := by
    unfold Image.scanStart
    rw [u32_eq (by omega), Nat.mul_comm]
  unfold Romfs.read
  dsimp only
  rw [isNode, read, Outcome.andThen_value, shows'.makeInt header (Nat.le_refl 16) (by decide), isSize,
    rounds, Outcome.andThen_value, start]
  rfl

end Name

/-! ## The open file -/

/-- A descriptor of a regular file of an image, with a position and a size. -/
structure OpenFile (v : Vfs Instances) (fd node pos size : Nat) (stale : ByteMem) (image : Image) :
    Prop where
  inTable : fd < maxGlobalFiles
  used : (v.file fd).isUsed = true
  plain : (v.file fd).isDevice = false
  file : (v.file fd).directory = false
  readable : (v.file fd).read = true
  driver : (v.fsType (v.mount (v.file fd).data).mountedFs).read = (fsType stale).read
  mounted : Mounted v.world (v.mount (v.file fd).data).mountedInstance image
  isNode : absolute (v.world.instances (v.mount (v.file fd).data).mountedInstance).rootInode
    (v.file fd).inode = node
  named : (image.name node).length < nameMax
  isSize : makeInt (image.node node) 8 = size
  inside : image.fileStart node + size ≤ image.len
  small : image.len < 2147483648
  isPos : (v.file fd).pos = pos
  posSmall : pos < 9223372036854775808

def remaining (size count pos : Nat) : Nat := min count (size - pos)

def Image.part (image : Image) (start pos count : Nat) : List UInt8 :=
  (List.range count).map fun k => image.bytes (start + pos + k)

def Image.answer (image : Image) (node pos size count : Nat) : Int × List UInt8 :=
  (remaining size count pos, image.part (image.fileStart node) pos (remaining size count pos))

/-- What a read of `count` bytes has to do: give what remains, no more, and move on. -/
def ReadRight (v : Vfs Instances) (fd node pos size count : Nat) (image : Image) : Prop :=
  ∃ after : Vfs Instances, v.vfsRead fd count = some (image.answer node pos size count, after) ∧
    (after.file fd).pos = pos + (remaining size count pos : Nat)

section OpenFile

variable {v : Vfs Instances} {fd node pos size count : Nat} {stale : ByteMem} {image : Image}

theorem OpenFile.size_small (open' : OpenFile v fd node pos size stale image) : size < 2147483648 := by
  have inside := open'.inside
  have small := open'.small
  omega

/-- What the call comes to. -/
theorem OpenFile.vfsRead (open' : OpenFile v fd node pos size stale image) (count : Nat) :
    ∃ data, v.vfsRead fd count = some (v.advance fd (toInt32 (wanted size count pos), data)) ∧
      readData v.world (v.world.instances (v.mount (v.file fd).data).mountedInstance).device
        (wanted size count pos) (toInt64 (image.scanStart node + pos)) = .value data ∧
          (wanted size count pos = 0 → data = []) := by
  obtain ⟨data, found, none⟩ := readData_value open'.mounted (wanted size count pos)
    (toInt64 (image.scanStart node + pos))
  have inTable := open'.inTable
  have small := Nat.lt_of_le_of_lt (Nat.le_trans (Nat.le_add_right _ _) open'.inside) open'.small
  refine ⟨data, ?_, found, none⟩
  have answer := read_eq open'.mounted stale open'.isNode open'.named open'.isSize open'.inside
    (Nat.lt_trans small (by decide)) count pos
  rw [found, Outcome.andThen_value] at answer
  unfold Vfs.vfsRead Vfs.readFile
  dsimp only
  rw [if_neg (by omega), if_neg (by omega), Int.toNat_natCast, open'.used, open'.plain, open'.file,
    open'.readable, open'.driver, open'.isPos, show (fsType stale).read = read stale from rfl, answer]
  rfl

theorem part_eq_iff (image : Image) (start start' pos count : Nat) :
    image.part start pos count = image.part start' pos count ↔
      ∀ k < count, image.bytes (start + pos + k) = image.bytes (start' + pos + k) := by
  unfold Image.part
  rw [List.map_inj_left]
  exact ⟨fun same k below => same k (List.mem_range.mpr below),
    fun same k member => same k (List.mem_range.mp member)⟩

theorem advance_value (v : Vfs Instances) (fd : Nat) (result : Int × List UInt8) :
    ∃ after, v.advance fd result = (result, after) ∧
      (0 ≤ result.1 → (after.file fd).pos = (v.file fd).pos + result.1) := by
  unfold advance
  split
  · exact ⟨_, rfl, fun _ => congrArg FileEntry.pos (if_pos rfl)⟩
  · exact ⟨v, rfl, fun positive => by omega⟩

/-- A read right up to the end of the file is right but for the place of the data. -/
theorem OpenFile.within (open' : OpenFile v fd node pos size stale image)
    (countSmall : count < 4294967296) (within : pos ≤ size) :
    ReadRight v fd node pos size count image ↔
      image.part (image.scanStart node) pos (remaining size count pos) =
        image.part (image.fileStart node) pos (remaining size count pos) := by
  have sizeSmall := open'.size_small
  have inside := open'.inside
  have small := open'.small
  obtain ⟨data, answer, read, -⟩ := open'.vfsRead count
  have before : image.scanStart node ≤ image.fileStart node := by
    unfold Image.scanStart Image.fileStart
    omega
  have goes : wanted size count pos = remaining size count pos :=
    wanted_within sizeSmall countSmall within
  have less : remaining size count pos ≤ size - pos := Nat.min_le_right _ _
  have offset : toInt64 (image.scanStart node + pos) = (image.scanStart node + pos : Nat) := by
    rw [toInt64_eq (by omega) (by omega)]
    rfl
  rw [goes, offset, readData_at open'.mounted (by omega)] at read
  have whole : data = image.part (image.scanStart node) pos (remaining size count pos) := by
    rw [← Outcome.value.inj read]
    unfold Image.read Image.part
    rw [Nat.min_eq_left (by omega)]
  have number : toInt32 (remaining size count pos) = (remaining size count pos : Nat) :=
    if_pos (by omega)
  rw [goes, number, whole] at answer
  obtain ⟨after, moves, moved⟩ := advance_value v fd
    ((remaining size count pos : Nat), image.part (image.scanStart node) pos (remaining size count pos))
  unfold ReadRight Image.answer
  rw [answer, moves]
  constructor
  · rintro ⟨other, same, -⟩
    exact (Prod.mk.inj (Prod.mk.inj (Option.some.inj same)).1).2
  · intro same
    refine ⟨after, by rw [same], ?_⟩
    rw [moved (by omega), open'.isPos]

/-- A read beyond the end is right only if it goes for nothing. -/
theorem OpenFile.beyond (open' : OpenFile v fd node pos size stale image)
    (countSmall : count < 4294967296) (beyond : size < pos) :
    ReadRight v fd node pos size count image ↔ wanted size count pos = 0 := by
  obtain ⟨data, answer, -, none⟩ := open'.vfsRead count
  have nothing : remaining size count pos = 0 := by
    unfold remaining
    omega
  have zero := toInt32_eq_zero (@wanted_lt size count countSmall pos)
  obtain ⟨after, moves, moved⟩ := advance_value v fd (toInt32 (wanted size count pos), data)
  unfold ReadRight Image.answer
  rw [answer, moves, nothing]
  constructor
  · rintro ⟨other, same, -⟩
    exact zero.mp (Prod.mk.inj (Prod.mk.inj (Option.some.inj same)).1).1
  · intro goes
    have returned := zero.mpr goes
    dsimp only at moved
    rw [returned] at moved ⊢
    rw [none goes]
    have here := moved (Int.le_refl 0)
    rw [open'.isPos] at here
    exact ⟨after, rfl, here⟩

/-- `vfs_read` gives exactly the bytes that remain of the count at the position, and moves by
them, exactly when the position is not beyond the end, but for a multiple of 2 ^ 32, and the
name is short enough for the scan, or the bytes are the same where the scan stops. -/
theorem read_right_iff (open' : OpenFile v fd node pos size stale image)
    (countSmall : count < 4294967296) :
    ReadRight v fd node pos size count image ↔
      (pos ≤ size ∨ (4294967296 ∣ pos - size ∧ pos + count < 9223372036854775808)) ∧
        ((image.name node).length < 272 ∨ ∀ k < remaining size count pos,
          image.bytes (image.scanStart node + pos + k) = image.bytes (image.fileStart node + pos + k)) := by
  by_cases within : pos ≤ size
  · rw [open'.within countSmall within, part_eq_iff, and_iff_right (Or.inl within)]
    constructor
    · exact fun same => Or.inr same
    · rintro (short | same)
      · have start : image.scanStart node = image.fileStart node := by
          unfold Image.scanStart Image.fileStart
          omega
        rw [start]
        exact fun _ _ => rfl
      · exact same
  · have beyond : size < pos := Nat.lt_of_not_le within
    rw [open'.beyond countSmall beyond, or_iff_right within,
      wanted_beyond_zero open'.size_small open'.posSmall countSmall beyond]
    refine (and_iff_left (Or.inr fun k below => ?_)).symm
    unfold remaining at below
    omega

/-- A seek moves the position and nothing else. -/
theorem OpenFile.seek (open' : OpenFile v fd node pos size stale image) {target : Nat}
    (small : target < 9223372036854775808) (garbage : Int) :
    OpenFile (v.vfsSeek fd target 0 garbage).2 fd node target size stale image := by
  have sought : (v.vfsSeek fd target 0 garbage).2 = v.setFile fd { v.file fd with pos := target } := by
    unfold vfsSeek
    dsimp only
    rw [if_pos rfl]
  have entry : (v.setFile fd { v.file fd with pos := target }).file fd =
      { v.file fd with pos := target } := if_pos rfl
  rw [sought]
  constructor
  · exact open'.inTable
  · rw [entry]
    exact open'.used
  · rw [entry]
    exact open'.plain
  · rw [entry]
    exact open'.file
  · rw [entry]
    exact open'.readable
  · rw [entry]
    exact open'.driver
  · rw [entry]
    exact open'.mounted
  · rw [entry]
    exact open'.isNode
  · exact open'.named
  · exact open'.isSize
  · exact open'.inside
  · exact open'.small
  · rw [entry]
  · exact small

end OpenFile

/-! ## Two files -/

/-- A root directory with the file `a` of three bytes. -/
def lettersImage : Image where
  len := 112
  bytes := fun i =>
    if i = 75 then 3 else if i = 96 then 97 else if i = 97 then 98 else if i = 98 then 99
    else smallImage.bytes i

def tablesOn (image : Image) : Vfs Instances :=
  { smallTables with world := ⟨fun _ => some (memblk image), fun _ => ⟨true, 0, 2⟩⟩ }

def fileOpened (image : Image) : Vfs Instances := ((tablesOn image).vfsOpen [slash, 97]).2

/-- The file `a` is found, and gets a descriptor. -/
def Found (image : Image) : Prop :=
  ((tablesOn image).vfsOpen [slash, 97]).1 = .value 0 ∧
    ((fileOpened image).file 0).isUsed = true ∧ ((fileOpened image).file 0).isDevice = false ∧
      ((fileOpened image).file 0).directory = false ∧ ((fileOpened image).file 0).read = true ∧
        ((fileOpened image).file 0).inode = 2 ∧ ((fileOpened image).file 0).pos = (0 : Nat)

theorem smallImage_found : Found smallImage := by
  unfold Found
  decide +kernel

theorem lettersImage_found : Found lettersImage := by
  unfold Found
  decide +kernel

section Opened

variable {image : Image}

theorem fileOpened_tables (found : Found image) : (fileOpened image).world = (tablesOn image).world ∧
    (fileOpened image).fsType = smallTables.fsType ∧ ∀ i, ((fileOpened image).mount i).mountedInstance = 0 := by
  obtain ⟨-, mp, s, -, after⟩ := vfsOpen_value (opened_pair found.1)
  change fileOpened image = _ at after
  rw [after]
  refine ⟨rfl, rfl, fun i => ?_⟩
  unfold addOpenFile setMount
  dsimp only
  split
  · rfl
  · rfl

theorem fileOpened_open (found : Found image) {size : Nat} (named : (image.name 4).length < nameMax)
    (isSize : makeInt (image.node 4) 8 = size) (inside : image.fileStart 4 + size ≤ image.len)
    (small : image.len < 2147483648) : OpenFile (fileOpened image) 0 4 0 size (fun _ => 0) image := by
  obtain ⟨world, types, instances⟩ := fileOpened_tables found
  obtain ⟨-, used, plain, file, readable, inode, pos⟩ := found
  constructor
  · decide
  · exact used
  · exact plain
  · exact file
  · exact readable
  · rw [types]
    rfl
  · rw [world, instances]
    exact ⟨⟨_, rfl, memblk_serves image⟩, show (2 : Nat) < 4294967296 by decide⟩
  · rw [world, instances, inode]
    rfl
  · exact named
  · exact isSize
  · exact inside
  · exact small
  · exact pos
  · decide

end Opened

theorem letters_open : OpenFile (fileOpened lettersImage) 0 4 0 3 (fun _ => 0) lettersImage :=
  fileOpened_open lettersImage_found (by decide +kernel) (by decide +kernel) (by decide +kernel)
    (by decide +kernel)

theorem empty_open : OpenFile (fileOpened smallImage) 0 4 0 0 (fun _ => 0) smallImage :=
  fileOpened_open smallImage_found (by decide +kernel) (by decide +kernel) (by decide +kernel)
    (by decide +kernel)

/-- Of three bytes two remain behind the first. -/
theorem read_right_letters : lettersImage.answer 4 1 3 5 = (2, [98, 99]) ∧
    (ReadRight ((fileOpened lettersImage).vfsSeek 0 1 0 0).2 0 4 1 3 5 lettersImage ↔
      (1 ≤ 3 ∨ (4294967296 ∣ 1 - 3 ∧ 1 + 5 < 9223372036854775808)) ∧
        ((lettersImage.name 4).length < 272 ∨ ∀ k < remaining 3 5 1,
          lettersImage.bytes (lettersImage.scanStart 4 + 1 + k) =
            lettersImage.bytes (lettersImage.fileStart 4 + 1 + k))) :=
  ⟨by decide +kernel, read_right_iff (letters_open.seek (by decide) 0) (by decide)⟩

/-- One byte beyond the end of the empty file the call returns -1, with a buffer of 5 bytes. -/
theorem read_beyond :
    ¬ ∀ (v : Vfs Instances) (fd node pos size count : Nat) (stale : ByteMem) (image : Image),
      OpenFile v fd node pos size stale image → count < 4294967296 →
        ReadRight v fd node pos size count image := by
  intro claim
  have beyond := empty_open.seek (show 1 < 9223372036854775808 by decide) 0
  have goes := (beyond.beyond (by decide) (by decide)).mp (claim _ 0 4 1 0 5 _ _ beyond (by decide))
  exact absurd goes (by decide)

end TrollOS.Romfs
