import TrollOS.Lib.Shares
import TrollOS.Romfs.Layout

/-!
# The contents of a file

Reads one after the other, without a seek, from a file of an image.  Each gets the bytes it asks for,
from where the last one stopped, as far as there are some.
-/

namespace TrollOS.Romfs

open TrollOS.Lib Vfs

/-- Calls of `vfs_read` one after the other, each with its return value and bytes. -/
def readAll (v : Vfs Instances) (fd : Nat) : List Nat → Option (List (Int × List UInt8))
  | [] => some []
  | count :: counts =>
      match v.vfsRead fd count with
      | none => none
      | some (result, after) => (readAll after fd counts).map (List.cons result)

def told (chunk : List UInt8) : Int × List UInt8 := (chunk.length, chunk)

/-- A descriptor of a file of an image, with a position inside. -/
structure FileAt (v : Vfs Instances) (fd pos : Nat) (content : List UInt8) (stale : ByteMem) (image : Image)
    (start : Nat) : Prop where
  inTable : fd < maxGlobalFiles
  used : (v.file fd).isUsed = true
  plain : (v.file fd).isDevice = false
  file : (v.file fd).directory = false
  readable : (v.file fd).read = true
  driver : v.fsType (v.mount (v.file fd).data).mountedFs = fsType stale
  mounted : Mounted v.world (v.mount (v.file fd).data).mountedInstance image
  node : ∃ node, absolute (v.world.instances (v.mount (v.file fd).data).mountedInstance).rootInode
    (v.file fd).inode = node ∧ image.Found start node (.file content)
  isPos : (v.file fd).pos = pos
  within : pos ≤ content.length
  fits : content.length < 2147483648

section FileAt

variable {v : Vfs Instances} {fd pos count start node : Nat} {content : List UInt8} {stale : ByteMem} {image : Image}

/-- The bytes of the image are those of the content. -/
theorem read_content (found : image.Found start node (.file content)) (pos count : Nat) :
    image.read (image.fileStart node + pos) (min count (content.length - pos)) = (content.drop pos).take count := by
  obtain ⟨-, -, inside, -, bytes⟩ := found.item
  unfold Image.read
  refine List.ext_getElem ?_ fun i left right => ?_
  · rw [List.length_map, List.length_range, List.length_take, List.length_drop]
    omega
  · rw [List.length_take, List.length_drop] at right
    have here := bytes (pos + i) (by omega)
    rw [List.getElem_map, List.getElem_range, List.getElem_take, List.getElem_drop, ← here, Nat.add_assoc]

theorem FileAt.move (at' : FileAt v fd pos content stale image start) {target : Nat} (within : target ≤ content.length) :
    FileAt (v.setFile fd { v.file fd with pos := target }) fd target content stale image start := by
  have entry : (v.setFile fd { v.file fd with pos := target }).file fd = { v.file fd with pos := target } := if_pos rfl
  constructor
  · exact at'.inTable
  · rw [entry]
    exact at'.used
  · rw [entry]
    exact at'.plain
  · rw [entry]
    exact at'.file
  · rw [entry]
    exact at'.readable
  · rw [entry]
    exact at'.driver
  · rw [entry]
    exact at'.mounted
  · rw [entry]
    exact at'.node
  · rw [entry]
  · exact within
  · exact at'.fits

/-- The position moves by what has been read. -/
theorem FileAt.advance (at' : FileAt v fd pos content stale image start) {chunk : List UInt8}
    (within : pos + chunk.length ≤ content.length) :
    ∃ after, v.advance fd (told chunk) = (told chunk, after) ∧
      FileAt after fd (pos + chunk.length) content stale image start := by
  unfold Vfs.advance told
  dsimp only
  split
  · have moved := at'.move within
    rw [at'.isPos, ← Int.natCast_add]
    exact ⟨_, rfl, moved⟩
  · have none : chunk.length = 0 := by omega
    rw [none]
    exact ⟨v, rfl, at'⟩

theorem part_within (within : pos ≤ content.length) (count : Nat) :
    pos + ((content.drop pos).take count).length ≤ content.length := by
  rw [List.length_take, List.length_drop]
  omega

/-- One read gives the next bytes. -/
theorem FileAt.read (at' : FileAt v fd pos content stale image start) (countSmall : count < 4294967296) :
    ∃ after, v.vfsRead fd count = some (told ((content.drop pos).take count), after) ∧
      FileAt after fd (pos + ((content.drop pos).take count).length) content stale image start := by
  obtain ⟨node, isNode, found⟩ := at'.node
  obtain ⟨-, size, inside, small, -⟩ := found.item
  have inTable := at'.inTable
  have within := at'.within
  have fits := at'.fits
  have short := found.short
  have isSize := size.trans (show toInt32 content.length = (content.length : Int) from if_pos fits)
  have begins : image.scanStart node = image.fileStart node := by
    unfold Image.scanStart Image.fileStart
    omega
  have reach := Nat.le_trans (Nat.add_le_add_left within _) inside
  have answer := read_eq at'.mounted stale isNode (Nat.lt_trans short (by decide)) isSize inside
    (Nat.lt_of_le_of_lt (Nat.le_add_right _ _) small) count pos
  have offset : toInt64 (image.scanStart node + pos) = (image.fileStart node + pos : Nat) := by
    rw [begins, toInt64_eq (by omega) (by omega)]
    rfl
  have number : toInt32 (min count (content.length - pos)) = ((content.drop pos).take count).length := by
    rw [List.length_take, List.length_drop]
    exact if_pos (Nat.lt_of_le_of_lt (Nat.le_trans (Nat.min_le_right _ _) (Nat.sub_le _ _)) fits)
  rw [wanted_within fits countSmall within, offset, readData_at at'.mounted reach, Outcome.andThen_value,
    read_content found, number] at answer
  obtain ⟨after, moves, there⟩ := at'.advance (part_within within count)
  refine ⟨after, ?_, there⟩
  rw [← moves]
  unfold Vfs.vfsRead Vfs.readFile
  dsimp only
  rw [if_neg (by omega), if_neg (by omega), Int.toNat_natCast, at'.used, at'.plain, at'.file, at'.readable, at'.driver,
    at'.isPos, show (fsType stale).read = Romfs.read stale from rfl, answer]
  rfl

/-- Reads in a row share out the rest of the file. -/
theorem FileAt.readAll (at' : FileAt v fd pos content stale image start) {counts : List Nat}
    (small : ∀ count ∈ counts, count < 4294967296) :
    Romfs.readAll v fd counts = some ((shares (content.drop pos) counts).map told) := by
  induction counts generalizing v pos with
  | nil => rfl
  | cons count counts ih =>
      obtain ⟨after, answer, there⟩ := at'.read (small count List.mem_cons_self)
      have later := ih there fun other member => small other (List.mem_cons_of_mem _ member)
      have rest : content.drop (pos + ((content.drop pos).take count).length) = (content.drop pos).drop count := by
        rw [← List.drop_drop, List.length_take]
        by_cases few : count ≤ (content.drop pos).length
        · rw [Nat.min_eq_left few]
        · have all := Nat.le_of_lt (Nat.lt_of_not_le few)
          rw [Nat.min_eq_right all, List.drop_length, List.drop_of_length_le all]
      unfold Romfs.readAll
      rw [answer]
      dsimp only
      rw [later, rest]
      rfl

end FileAt

/-- The descriptor gives the content: the bytes in a row, and at the end 0 for ever. -/
def ReadsAs (v : Vfs Instances) (fd : Nat) (content : List UInt8) : Prop :=
  ∀ counts more : List Nat, (∀ count ∈ counts ++ more, count < 4294967296) →
    ∃ chunks : List (List UInt8), chunks.flatten = content.take counts.sum ∧
      readAll v fd counts = some (chunks.map told) ∧
        (content.length ≤ counts.sum → readAll v fd (counts ++ more) = some (chunks.map told ++ more.map fun _ => (0, [])))

theorem FileAt.readsAs {v : Vfs Instances} {fd start : Nat} {content : List UInt8} {stale : ByteMem} {image : Image}
    (at' : FileAt v fd 0 content stale image start) : ReadsAs v fd content := by
  intro counts more small
  refine ⟨shares content counts, shares_flatten content counts, ?_, fun ended => ?_⟩
  · exact at'.readAll fun count member => small count (List.mem_append_left _ member)
  · rw [at'.readAll small, List.drop_zero, shares_append, List.map_append, List.drop_of_length_le ended, shares_nil,
      List.map_map]
    rfl

end TrollOS.Romfs
