import Mathlib.Data.List.Find
import TrollOS.Lib.Sessions
import TrollOS.Romfs.Decoding

/-!
# Descriptors side by side

Calls on a volume in any order, with any number of descriptors open at once.  Every descriptor has a
position of its own in the bytes of its file, and no call on one moves another.
-/

namespace TrollOS.Romfs

open TrollOS.Lib Vfs

inductive Request where
  | opens (names : List (List UInt8))
  | close (fd : Int)
  | read (fd : Int) (count : Nat)
  | seek (fd offset whence : Int)
  | tell (fd : Int)

/-- What a call returns, and the bytes it puts into the buffer. -/
abbrev Answer := Int × List UInt8

/-- A call on the tables; `none` when it does not return, or reads what is before or behind the table of
files, which `vfs_read` does for -1 and `vfs_seek` and `vfs_tell` for all that is no descriptor. -/
def call (garbage : Int) (v : Vfs Instances) (request : Request) : Option Answer × Vfs Instances :=
  match request with
  | .opens names =>
      match v.vfsOpen (pathOf names) with
      | (.value fd, after) => (some (fd, []), after)
      | (.error errno, after) => (some (errno, []), after)
      | (.hang, after) => (none, after)
  | .close fd => (some ((v.vfsClose fd).1, []), (v.vfsClose fd).2)
  | .read fd count =>
      match v.vfsRead fd count with
      | some (answer, after) => (some answer, after)
      | none => (none, v)
  | .seek fd offset whence =>
      if fd < 0 ∨ (maxGlobalFiles : Int) ≤ fd then (none, v)
      else
        (some ((v.vfsSeek fd.toNat offset whence garbage).1, []), (v.vfsSeek fd.toNat offset whence garbage).2)
  | .tell fd =>
      if fd < 0 ∨ (maxGlobalFiles : Int) ≤ fd then (none, v) else (some (v.vfsTell fd.toNat, []), v)

/-! ## What the calls are for -/

/-- What a descriptor stands for: a position in a file, a directory, or something of somebody else. -/
inductive Handle where
  | file (content : List UInt8) (pos : Nat)
  | dir
  | foreign
  deriving DecidableEq

abbrev Desk := Nat → Option Handle

/-- Where a path of names leads, or why it leads nowhere. -/
def Item.resolve : Item → List (List UInt8) → Except Int Item
  | item, [] => .ok item
  | .file _, _ :: _ => .error (-enotdir)
  | .dir entries, name :: names =>
      match entries.lookup name with
      | some item => item.resolve names
      | none => .error (-enoent)

def Item.handle : Item → Handle
  | .file content => .file content 0
  | .dir _ => .dir

def sought (size pos : Nat) (offset whence : Int) : Option Int :=
  if whence = 0 then some offset
  else if whence = 1 then some (pos + offset)
  else if whence = 2 then some (size + offset)
  else none

namespace Desk

def free (d : Desk) : Option Nat := (List.range maxGlobalFiles).find? fun fd => (d fd).isNone

/-- What a number stands for; nothing if it is no descriptor. -/
def handle (d : Desk) (fd : Int) : Option Handle := if fd < 0 then none else d fd.toNat

def put (d : Desk) (fd : Nat) (handle : Option Handle) : Desk := Function.update d fd handle

def opens (d : Desk) (item : Item) : Answer × Desk :=
  match d.free with
  | some fd => ((fd, []), d.put fd (some item.handle))
  | none => ((-emfile, []), d)

def close (d : Desk) (fd : Int) : Answer × Desk :=
  if fd < 0 ∨ (maxGlobalFiles : Int) ≤ fd then ((-ebadf, []), d) else ((0, []), d.put fd.toNat none)

def read (d : Desk) (fd : Int) (count : Nat) : Answer × Desk :=
  match d.handle fd with
  | some (.file content pos) =>
      (told ((content.drop pos).take count),
        d.put fd.toNat (some (.file content (pos + ((content.drop pos).take count).length))))
  | some _ => ((-eisdir, []), d)
  | none => ((-ebadf, []), d)

def seek (d : Desk) (fd offset whence : Int) : Answer × Desk :=
  match d.handle fd with
  | some (.file content pos) =>
      match sought content.length pos offset whence with
      | some there => ((0, []), d.put fd.toNat (some (.file content there.toNat)))
      | none => ((-einval, []), d)
  | _ => ((-ebadf, []), d)

def tell (d : Desk) (fd : Int) : Answer :=
  match d.handle fd with
  | some (.file _ pos) => (pos, [])
  | _ => (-ebadf, [])

/-- What the answer to a request should be. -/
def serve (entries : Entries) (d : Desk) (request : Request) : Answer × Desk :=
  match request with
  | .opens names =>
      match (Item.dir entries).resolve names with
      | .ok item => d.opens item
      | .error errno => ((errno, []), d)
  | .close fd => d.close fd
  | .read fd count => d.read fd count
  | .seek fd offset whence => d.seek fd offset whence
  | .tell fd => (d.tell fd, d)

/-- The requests that are answered so: names that fit and are not the root's own node, one's own
descriptors or numbers that are none, but for a read of -1, and positions in the file. -/
def Allowed (d : Desk) (request : Request) : Prop :=
  match request with
  | .opens names => (∀ name ∈ names, StepName name ∧ name.length ≤ nameMax) ∧ names.head? ≠ some Image.dot
  | .close fd => fd < 0 ∨ (maxGlobalFiles : Int) ≤ fd ∨ d.handle fd = some .dir ∨
      ∃ content pos, d.handle fd = some (.file content pos)
  | .read fd count => fd ≠ -1 ∧ d.handle fd ≠ some .foreign ∧ count < 4294967296
  | .seek fd offset whence => ∃ content pos, d.handle fd = some (.file content pos) ∧
      ∀ there, sought content.length pos offset whence = some there → 0 ≤ there ∧ there ≤ content.length
  | .tell fd => ∃ content pos, d.handle fd = some (.file content pos)

theorem handle_natCast (d : Desk) (fd : Nat) : d.handle (fd : Int) = d fd := by
  unfold handle
  rw [if_neg (Int.not_lt.2 (Int.natCast_nonneg fd)), Int.toNat_natCast]

/-- A number that stands for something is a descriptor. -/
theorem handle_some {d : Desk} {fd : Int} {handle : Handle} (own : d.handle fd = some handle) :
    ∃ n : Nat, fd = n ∧ d n = some handle := by
  by_cases negative : fd < 0
  · rw [Desk.handle, if_pos negative] at own
    cases own
  · rw [Desk.handle, if_neg negative] at own
    exact ⟨fd.toNat, (Int.toNat_of_nonneg (Int.not_lt.1 negative)).symm, own⟩

def found (v : Vfs Instances) : Desk := fun fd =>
  if fd < maxGlobalFiles ∧ (v.file fd).isUsed then some .foreign else none

end Desk

/-! ## Resolving -/

theorem resolve_ok {item found : Item} {names : List (List UInt8)} (led : item.resolve names = .ok found) :
    item.find names = some found := by
  induction names generalizing item with
  | nil =>
      rw [find_nil]
      cases item with
      | file content => exact congrArg some (Except.ok.inj led)
      | dir entries => exact congrArg some (Except.ok.inj led)
  | cons name names ih =>
      cases item with
      | file content => cases led
      | dir entries =>
          rw [find_cons]
          unfold Item.resolve at led
          cases looked : entries.lookup name with
          | none =>
              rw [looked] at led
              cases led
          | some next =>
              rw [looked] at led
              exact ih led

/-- A path leads nowhere where a name is missing, or behind a file. -/
theorem resolve_error {item : Item} {names : List (List UInt8)} {errno : Int}
    (stuck : item.resolve names = .error errno) :
    (errno = -enoent ∧ ∃ before name others inner, names = before ++ name :: others ∧
        item.find before = some (.dir inner) ∧ inner.lookup name = none) ∨
      (errno = -enotdir ∧ ∃ before others content, names = before ++ others ∧ others ≠ [] ∧
        item.find before = some (.file content)) := by
  induction names generalizing item with
  | nil => cases item with
      | file content => cases stuck
      | dir entries => cases stuck
  | cons name names ih =>
      cases item with
      | file content =>
          obtain rfl := Except.error.inj stuck
          exact Or.inr ⟨rfl, [], name :: names, content, rfl, List.cons_ne_nil name names, rfl⟩
      | dir entries =>
          unfold Item.resolve at stuck
          cases looked : entries.lookup name with
          | none =>
              rw [looked] at stuck
              obtain rfl := Except.error.inj stuck
              exact Or.inl ⟨rfl, [], name, names, entries, rfl, rfl, looked⟩
          | some next =>
              rw [looked] at stuck
              have deeper (before : List (List UInt8)) :
                  (Item.dir entries).find (name :: before) = next.find before := by
                rw [find_cons, looked]
                rfl
              rcases ih stuck with ⟨code, before, last, others, inner, rfl, there, missing⟩ |
                  ⟨code, before, others, content, rfl, more, there⟩
              · exact Or.inl ⟨code, name :: before, last, others, inner, rfl, (deeper before).trans there, missing⟩
              · exact Or.inr ⟨code, name :: before, others, content, rfl, more, (deeper before).trans there⟩

section Resolving

variable {v : Vfs Instances} {k start : Nat} {stale : ByteMem} {image : Image} {front : List (List UInt8)}
  {entries inner : Entries} {fname : List UInt8}

/-- `vfs_stat` of a path with a missing name, whatever comes behind it. -/
theorem OnRoot.stat_astray (on : OnRoot v k stale image start) (stands : Stands image start 0 front entries)
    {names others : List (List UInt8)} (found : (Item.dir entries).find names = some (.dir inner))
    (proper : ∀ name ∈ fname :: others, StepName name ∧ name.length ≤ nameMax)
    (other : names = [] → fname ∉ front) (missing : inner.lookup fname = none) :
    v.vfsStat (pathOf (names ++ fname :: others)) = .error (-enoent) := by
  obtain ⟨step, fits⟩ := proper fname List.mem_cons_self
  by_cases last : others = []
  · rw [last]
    exact on.stat_missing stands found step other missing
  · have short : ∀ name ∈ names ++ [fname], StepName name ∧ name.length ≤ nameMax := by
      intro name member
      rcases List.mem_append.1 member with before | here
      · exact find_names stands.named found name before
      · rw [List.mem_singleton.1 here]
        exact ⟨step, fits⟩
    obtain ⟨fuel, -, -, resolved⟩ := on.resolvIno short last
      (fun name member => (proper name (List.mem_cons_of_mem _ member)).1)
      (Or.inl (List.append_ne_nil_of_right_ne_nil names (List.cons_ne_nil fname [])))
    rw [List.append_assoc, List.singleton_append, List.append_assoc, List.singleton_append] at resolved
    obtain ⟨inode, walked, stands'⟩ :=
      on.descend stands (List.cons_ne_nil fname (pieces fuel (joined others))) found
    have other' : fname ∉ if names = [] then front else [] := by
      split
      · next here => exact other here
      · exact List.not_mem_nil
    rcases on.lookup stands'.lists step.nonempty fits other' with ⟨item, node, s, looked, -⟩ | ⟨-, answer⟩
    · rw [missing] at looked
      cases looked
    · unfold vfsStat
      rw [resolved, walked, walk_missing answer]
      rfl

end Resolving

/-! ## The tables -/

/-- But for the table of files, only the counts of open files differ. -/
structure Quiet (v v' : Vfs Instances) : Prop where
  types : v'.fsType = v.fsType
  world : v'.world = v.world
  mounts : ∀ i, ∃ count, v'.mount i = { v.mount i with openFiles := count }

/-- A descriptor of a file in the volume mounted as `k`. -/
structure OpenOn (v : Vfs Instances) (k : Nat) (stale : ByteMem) (image : Image) (start fd : Nat) (content : List UInt8)
    (pos : Nat) : Prop where
  place : FileAt v fd pos content stale image start
  single : (v.file fd).ref = 1
  data : (v.file fd).data = k
  inode : ∃ node, (v.file fd).inode = relative (start / 16) node ∧ image.Found start node (.file content)

structure OpenDir (v : Vfs Instances) (fd : Nat) : Prop where
  used : (v.file fd).isUsed = true
  plain : (v.file fd).isDevice = false
  directory : (v.file fd).directory = true
  single : (v.file fd).ref = 1

/-- What the table holds for a handle. -/
def Holds (v : Vfs Instances) (k : Nat) (stale : ByteMem) (image : Image) (start fd : Nat) (handle : Option Handle) :
    Prop :=
  match handle with
  | none => (v.file fd).isUsed = false
  | some .foreign => (v.file fd).isUsed = true
  | some .dir => OpenDir v fd
  | some (.file content pos) => OpenOn v k stale image start fd content pos

/-- The tables stand for the desk. -/
structure Stocked (v : Vfs Instances) (k : Nat) (stale : ByteMem) (image : Image) (start : Nat) (d : Desk) : Prop where
  on : OnRoot v k stale image start
  holds : ∀ fd, fd < maxGlobalFiles → Holds v k stale image start fd (d fd)
  beyond : ∀ fd, maxGlobalFiles ≤ fd → d fd = none

section Tables

variable {v v' : Vfs Instances} {k start fd pos : Nat} {stale : ByteMem} {image : Image} {content : List UInt8} {d : Desk}

theorem Quiet.isMountpoint (quiet : Quiet v v') (dev ino : Nat) : v'.isMountpoint dev ino = v.isMountpoint dev ino := by
  unfold Vfs.isMountpoint
  congr 1
  funext i
  obtain ⟨count, same⟩ := quiet.mounts i
  rw [same]

theorem Quiet.onRoot (quiet : Quiet v v') (on : OnRoot v k stale image start) : OnRoot v' k stale image start := by
  obtain ⟨count, same⟩ := quiet.mounts k
  constructor
  · exact (quiet.isMountpoint _ _).trans on.root
  · intro dev ino other
    rw [quiet.isMountpoint]
    exact on.single dev ino other
  · rw [quiet.types, same]
    exact on.driver
  · rw [quiet.world, same]
    exact on.mounted
  · rw [quiet.world, same]
    exact on.rootInode
  · exact on.large
  · exact on.fits

theorem Quiet.fileAt (quiet : Quiet v v') (kept : v'.file fd = v.file fd)
    (place : FileAt v fd pos content stale image start) : FileAt v' fd pos content stale image start := by
  obtain ⟨count, same⟩ := quiet.mounts (v.file fd).data
  constructor
  · exact place.inTable
  · rw [kept]
    exact place.used
  · rw [kept]
    exact place.plain
  · rw [kept]
    exact place.file
  · rw [kept]
    exact place.readable
  · rw [quiet.types, kept, same]
    exact place.driver
  · rw [quiet.world, kept, same]
    exact place.mounted
  · rw [quiet.world, kept, same]
    exact place.node
  · rw [kept]
    exact place.isPos
  · exact place.within
  · exact place.fits

theorem Quiet.holds (quiet : Quiet v v') (kept : v'.file fd = v.file fd) {handle : Option Handle}
    (holds : Holds v k stale image start fd handle) : Holds v' k stale image start fd handle := by
  cases handle with
  | none => exact (congrArg FileEntry.isUsed kept).trans holds
  | some handle =>
      cases handle with
      | foreign => exact (congrArg FileEntry.isUsed kept).trans holds
      | dir =>
          obtain ⟨used, plain, directory, single⟩ := holds
          rw [← kept] at used plain directory single
          exact ⟨used, plain, directory, single⟩
      | file content pos =>
          obtain ⟨place, single, data, inode⟩ := holds
          rw [← kept] at single data inode
          exact ⟨quiet.fileAt kept place, single, data, inode⟩

/-- One descriptor has changed. -/
theorem Stocked.change (stocked : Stocked v k stale image start d) (quiet : Quiet v v') (inTable : fd < maxGlobalFiles)
    (others : ∀ j, j ≠ fd → v'.file j = v.file j) {handle : Option Handle} (here : Holds v' k stale image start fd handle) :
    Stocked v' k stale image start (d.put fd handle) where
  on := quiet.onRoot stocked.on
  holds := by
    intro j inside
    unfold Desk.put
    by_cases same : j = fd
    · rw [same, Function.update_self]
      exact here
    · rw [Function.update_of_ne same]
      exact quiet.holds (others j same) (stocked.holds j inside)
  beyond := by
    intro j outside
    unfold Desk.put
    rw [Function.update_of_ne (by omega)]
    exact stocked.beyond j outside

theorem quiet_setFile (v : Vfs Instances) (fd : Nat) (entry : FileEntry) : Quiet v (v.setFile fd entry) :=
  ⟨rfl, rfl, fun i => ⟨(v.mount i).openFiles, rfl⟩⟩

theorem quiet_setMount (v : Vfs Instances) (i : Nat) (count : Int) :
    Quiet v (v.setMount i { v.mount i with openFiles := count }) := by
  refine ⟨rfl, rfl, fun j => ?_⟩
  by_cases same : j = i
  · exact ⟨count, same ▸ if_pos rfl⟩
  · exact ⟨(v.mount j).openFiles, if_neg same⟩

theorem Quiet.trans {v'' : Vfs Instances} (first : Quiet v v') (second : Quiet v' v'') : Quiet v v'' := by
  refine ⟨second.types.trans first.types, second.world.trans first.world, fun i => ?_⟩
  obtain ⟨count, before⟩ := first.mounts i
  obtain ⟨count', after⟩ := second.mounts i
  rw [before] at after
  exact ⟨count', after⟩

/-- A free descriptor of the desk is one of the table. -/
theorem Stocked.free (stocked : Stocked v k stale image start d) : v.allocFile = d.free := by
  unfold allocFile Desk.free
  refine List.find?_congr fun fd member => ?_
  have holds := stocked.holds fd (List.mem_range.1 member)
  cases handle : d fd with
  | none =>
      rw [handle] at holds
      have unused : (v.file fd).isUsed = false := holds
      rw [unused]
      rfl
  | some taken =>
      rw [handle] at holds
      have used : (v.file fd).isUsed = true := by
        cases taken with
        | foreign => exact holds
        | dir => exact holds.used
        | file content pos => exact holds.place.used
      rw [used]
      rfl

/-! ## One call -/

/-- A position moves, and nothing else. -/
theorem OpenOn.move (open' : OpenOn v k stale image start fd content pos) {target : Nat} (within : target ≤ content.length) :
    OpenOn (v.setFile fd { v.file fd with pos := target }) k stale image start fd content target := by
  have entry : (v.setFile fd { v.file fd with pos := target }).file fd = { v.file fd with pos := target } := if_pos rfl
  refine ⟨open'.place.move within, ?_, ?_, ?_⟩
  · rw [entry]
    exact open'.single
  · rw [entry]
    exact open'.data
  · rw [entry]
    exact open'.inode

theorem call_read {garbage fd : Int} {count : Nat} {answer : Answer} {after : Vfs Instances}
    (ran : v.vfsRead fd count = some (answer, after)) : call garbage v (.read fd count) = (some answer, after) := by
  unfold call
  dsimp only
  rw [ran]

/-- A refused read changes nothing. -/
theorem Stocked.refused (stocked : Stocked v k stale image start d) (errno garbage : Int) {fd : Int} {count : Nat}
    (ran : v.vfsRead fd count = some ((errno, []), v)) (answered : d.read fd count = ((errno, []), d)) :
    (call garbage v (.read fd count)).1 = some (d.read fd count).1 ∧
      Stocked (call garbage v (.read fd count)).2 k stale image start (d.read fd count).2 := by
  rw [call_read ran, answered]
  exact ⟨rfl, stocked⟩

/-- A read of an open file gives the next bytes and moves on. -/
theorem Stocked.readOpen (stocked : Stocked v k stale image start d) (garbage : Int) {fd count pos : Nat}
    {content : List UInt8} (inTable : fd < maxGlobalFiles) (handle : d fd = some (.file content pos))
    (small : count < 4294967296) :
    (call garbage v (.read fd count)).1 = some (d.read fd count).1 ∧
      Stocked (call garbage v (.read fd count)).2 k stale image start (d.read fd count).2 := by
  have holds := stocked.holds fd inTable
  rw [handle] at holds
  have open' : OpenOn v k stale image start fd content pos := holds
  obtain ⟨after, ran, there⟩ := open'.place.read small
  have answered : d.read fd count = (told ((content.drop pos).take count),
      d.put fd (some (.file content (pos + ((content.drop pos).take count).length)))) := by
    unfold Desk.read
    rw [d.handle_natCast, handle, Int.toNat_natCast]
  rw [call_read ran, answered]
  refine ⟨rfl, ?_⟩
  have within := part_within open'.place.within count
  have moved := open'.move within
  have position := there.isPos
  rcases vfsRead_moves ran with same | ⟨target, same⟩
  · have still : pos + ((content.drop pos).take count).length = pos := by
      have before := open'.place.isPos
      rw [same] at position
      omega
    rw [same, still]
    refine stocked.change ⟨rfl, rfl, fun i => ⟨_, rfl⟩⟩ inTable (fun j _ => rfl) ?_
    exact open'
  · rw [Int.toNat_natCast] at same
    have reached : target = (pos + ((content.drop pos).take count).length : Nat) := by
      rw [same] at position
      have entry : (v.setFile fd { v.file fd with pos := target }).file fd =
          { v.file fd with pos := target } := if_pos rfl
      rw [entry] at position
      exact position
    rw [same, reached]
    exact stocked.change (quiet_setFile v fd _) inTable (fun j other => if_neg other) moved

theorem Stocked.read (stocked : Stocked v k stale image start d) (garbage : Int) {fd : Int} {count : Nat}
    (before : fd ≠ -1) (own : d.handle fd ≠ some .foreign) (small : count < 4294967296) :
    (call garbage v (.read fd count)).1 = some (d.read fd count).1 ∧
      Stocked (call garbage v (.read fd count)).2 k stale image start (d.read fd count).2 := by
  by_cases negative : fd < 0
  · refine stocked.refused (-ebadf) garbage ?_ ?_
    · unfold Vfs.vfsRead
      exact if_pos (Or.inl (by omega))
    · unfold Desk.read Desk.handle
      rw [if_pos negative]
  obtain ⟨fd, rfl⟩ := Int.eq_ofNat_of_zero_le (Int.not_lt.1 negative)
  rw [d.handle_natCast] at own
  by_cases inTable : fd < maxGlobalFiles
  · have holds := stocked.holds fd inTable
    have inside : v.vfsRead fd count = v.readFile fd count := by
      unfold Vfs.vfsRead
      rw [if_neg (by omega), if_neg (by omega), Int.toNat_natCast]
    cases handle : d fd with
    | none =>
        rw [handle] at holds
        have unused : (v.file fd).isUsed = false := holds
        refine stocked.refused (-ebadf) garbage ?_ ?_
        · rw [inside]
          unfold readFile
          dsimp only
          rw [unused]
          rfl
        · unfold Desk.read
          rw [d.handle_natCast, handle]
    | some taken =>
        cases taken with
        | foreign => exact absurd handle own
        | dir =>
            rw [handle] at holds
            obtain ⟨used, plain, directory, -⟩ := holds
            refine stocked.refused (-eisdir) garbage ?_ ?_
            · rw [inside]
              unfold readFile
              dsimp only
              rw [used, plain, directory]
              rfl
            · unfold Desk.read
              rw [d.handle_natCast, handle]
        | file content pos => exact stocked.readOpen garbage inTable handle small
  · have none := stocked.beyond fd (Nat.not_lt.1 inTable)
    refine stocked.refused (-ebadf) garbage ?_ ?_
    · unfold Vfs.vfsRead
      exact if_pos (Or.inr (by omega))
    · unfold Desk.read
      rw [d.handle_natCast, none]

/-- The size of the file as `vfs_seek` finds it. -/
theorem OpenOn.size (open' : OpenOn v k stale image start fd content pos) (on : OnRoot v k stale image start) :
    ∃ s, (v.fsType (v.mount (v.file fd).data).mountedFs).statInode v.world
      (v.mount (v.file fd).data).mountedInstance (v.file fd).inode = .value s ∧ s.size = content.length := by
  obtain ⟨node, ino, found⟩ := open'.inode
  obtain ⟨s, answer, -, described⟩ := found.stat on.mounted on.rootInode stale
  refine ⟨s, ?_, described.2.trans (if_pos open'.place.fits)⟩
  rw [open'.data, on.driver, ino]
  exact answer

/-- A seek takes the position that is asked for. -/
theorem OpenOn.seek (open' : OpenOn v k stale image start fd content pos) (on : OnRoot v k stale image start)
    (garbage offset whence : Int) :
    (∃ there, sought content.length pos offset whence = some there ∧
        v.vfsSeek fd offset whence garbage = (0, v.setFile fd { v.file fd with pos := there })) ∨
      (sought content.length pos offset whence = none ∧ v.vfsSeek fd offset whence garbage = (-einval, v)) := by
  unfold sought vfsSeek
  dsimp only
  by_cases start' : whence = 0
  · rw [if_pos start', if_pos start']
    exact Or.inl ⟨_, rfl, rfl⟩
  · rw [if_neg start', if_neg start']
    by_cases current : whence = 1
    · rw [if_pos current, if_pos current, open'.place.isPos]
      exact Or.inl ⟨_, rfl, rfl⟩
    · rw [if_neg current, if_neg current]
      by_cases ending : whence = 2
      · obtain ⟨s, answer, size⟩ := open'.size on
        rw [if_pos ending, if_pos ending, answer]
        dsimp only
        rw [size]
        exact Or.inl ⟨_, rfl, rfl⟩
      · rw [if_neg ending, if_neg ending]
        exact Or.inr ⟨rfl, rfl⟩

/-- A descriptor of the desk is one of the table. -/
theorem Stocked.inTable (stocked : Stocked v k stale image start d) {handle : Handle} (own : d fd = some handle) :
    fd < maxGlobalFiles := by
  by_contra outside
  rw [stocked.beyond fd (Nat.not_lt.1 outside)] at own
  cases own

theorem Stocked.seek (stocked : Stocked v k stale image start d) (garbage : Int) {fd offset whence : Int}
    (mine : d.handle fd = some (.file content pos))
    (fits : ∀ there, sought content.length pos offset whence = some there → 0 ≤ there ∧ there ≤ content.length) :
    (call garbage v (.seek fd offset whence)).1 = some (d.seek fd offset whence).1 ∧
      Stocked (call garbage v (.seek fd offset whence)).2 k stale image start (d.seek fd offset whence).2 := by
  obtain ⟨fd, rfl, own⟩ := Desk.handle_some mine
  have inTable := stocked.inTable own
  have open' := stocked.holds fd inTable
  rw [own] at open'
  unfold call Desk.seek
  dsimp only
  rw [mine, if_neg (by omega), Int.toNat_natCast]
  dsimp only
  rcases OpenOn.seek open' stocked.on garbage offset whence with ⟨there, target, ran⟩ | ⟨target, ran⟩
  · obtain ⟨low, high⟩ := fits there target
    have position : there = there.toNat := (Int.toNat_of_nonneg low).symm
    rw [target, ran]
    refine ⟨rfl, stocked.change (quiet_setFile v fd _) inTable (fun j other => if_neg other) ?_⟩
    rw [position, Int.toNat_natCast]
    exact OpenOn.move open' (by omega)
  · rw [target, ran]
    exact ⟨rfl, stocked⟩

theorem Stocked.tell (stocked : Stocked v k stale image start d) (garbage : Int) {fd : Int}
    (mine : d.handle fd = some (.file content pos)) : call garbage v (.tell fd) = (some (d.tell fd), v) := by
  obtain ⟨fd, rfl, own⟩ := Desk.handle_some mine
  have inTable := stocked.inTable own
  have open' := stocked.holds fd inTable
  rw [own] at open'
  have position := open'.place.isPos
  unfold call Desk.tell vfsTell
  dsimp only
  rw [if_neg (by omega), mine, Int.toNat_natCast, position]

/-- The only reference to a descriptor is given back. -/
theorem vfsClose_single (inTable : fd < maxGlobalFiles) (single : (v.file fd).ref = 1) :
    ∃ after, v.vfsClose fd = (0, after) ∧ Quiet v after ∧ (after.file fd).isUsed = false ∧
      ∀ j, j ≠ fd → after.file j = v.file j := by
  have zero : (v.file fd).ref - 1 = 0 := by omega
  unfold vfsClose
  rw [if_neg (by omega), Int.toNat_natCast]
  dsimp only
  rw [if_pos zero]
  refine ⟨_, rfl, ?_, ?_, fun j other => if_neg other⟩
  · exact (quiet_setFile v fd _).trans (quiet_setMount (v.setFile fd _) _ _)
  · exact congrArg FileEntry.isUsed (if_pos rfl)

theorem Stocked.close (stocked : Stocked v k stale image start d) (garbage : Int) {fd : Int}
    (allowed : d.Allowed (.close fd)) : (call garbage v (.close fd)).1 = some (d.close fd).1 ∧
      Stocked (call garbage v (.close fd)).2 k stale image start (d.close fd).2 := by
  unfold call Desk.close
  dsimp only
  by_cases outside : fd < 0 ∨ (maxGlobalFiles : Int) ≤ fd
  · have ran : v.vfsClose fd = (-ebadf, v) := if_pos outside
    rw [if_pos outside, ran]
    exact ⟨rfl, stocked⟩
  · have own : ∃ n : Nat, fd = n ∧ (d n = some .dir ∨ ∃ content pos, d n = some (.file content pos)) := by
      rcases allowed with negative | large | dir | ⟨content, pos, file⟩
      · exact absurd (Or.inl negative) outside
      · exact absurd (Or.inr large) outside
      · obtain ⟨n, same, here⟩ := Desk.handle_some dir
        exact ⟨n, same, Or.inl here⟩
      · obtain ⟨n, same, here⟩ := Desk.handle_some file
        exact ⟨n, same, Or.inr ⟨content, pos, here⟩⟩
    obtain ⟨fd, rfl, own⟩ := own
    have inTable : fd < maxGlobalFiles := by omega
    have holds := stocked.holds fd inTable
    have single : (v.file fd).ref = 1 := by
      rcases own with dir | ⟨content, pos, file⟩
      · rw [dir] at holds
        exact holds.single
      · rw [file] at holds
        exact holds.single
    obtain ⟨after, ran, quiet, unused, others⟩ := vfsClose_single inTable single
    rw [if_neg outside, ran, Int.toNat_natCast]
    exact ⟨rfl, stocked.change quiet inTable others unused⟩

end Tables

section Opening

variable {v : Vfs Instances} {k fd : Nat} {stale : ByteMem} {image : Image} {label : List UInt8} {entries : Entries}
  {d : Desk} {item : Item} {s : Stat} {names : List (List UInt8)}

/-- The descriptor of an item, just opened. -/
theorem Stocked.opened (stocked : Stocked v k stale image (Image.rootOffset label) d) (inTable : fd < maxGlobalFiles)
    (described : item.Described s)
    (fits : ∀ content, item = .file content → content.length < 2147483648 ∧
      ∃ node, s.ino = relative (Image.rootOffset label / 16) node ∧
        image.Found (Image.rootOffset label) node (.file content)) :
    Stocked ((v.setFile fd (openedEntry (v.file fd) k s)).addOpenFile k) k stale image (Image.rootOffset label)
      (d.put fd (some item.handle)) := by
  have entry : ((v.setFile fd (openedEntry (v.file fd) k s)).addOpenFile k).file fd = openedEntry (v.file fd) k s :=
    if_pos rfl
  refine stocked.change ((quiet_setFile v fd _).trans (quiet_setMount (v.setFile fd _) k _)) inTable
    (fun j other => if_neg other) ?_
  cases item with
  | file content =>
      obtain ⟨small, node, ino, found⟩ := fits content rfl
      obtain ⟨notBlk, notChr, -⟩ := isReg_plain described.1
      have place := stocked.on.opened_file found described.1 ino inTable small
      refine ⟨place, ?_, ?_, node, ?_, found⟩
      · exact congrArg FileEntry.ref entry
      · refine (congrArg FileEntry.data entry).trans ?_
        unfold openedEntry
        dsimp only
        rw [notBlk, notChr]
        rfl
      · exact (congrArg FileEntry.inode entry).trans ino
  | dir inner =>
      obtain ⟨notBlk, notChr⟩ := isDir_plain described.1
      refine ⟨congrArg FileEntry.isUsed entry, ?_, ?_, congrArg FileEntry.ref entry⟩
      · refine (congrArg FileEntry.isDevice entry).trans ?_
        unfold openedEntry
        dsimp only
        rw [notBlk, notChr]
        rfl
      · refine (congrArg FileEntry.directory entry).trans ?_
        unfold openedEntry
        dsimp only
        rw [notBlk, notChr, described.1]
        rfl

theorem Stocked.open_found (stocked : Stocked v k stale image (Image.rootOffset label) d) (garbage : Int)
    (answer : v.vfsStat (pathOf names) = .value (k, s)) (described : item.Described s)
    (fits : ∀ content, item = .file content → content.length < 2147483648 ∧
      ∃ node, s.ino = relative (Image.rootOffset label / 16) node ∧
        image.Found (Image.rootOffset label) node (.file content)) :
    (call garbage v (.opens names)).1 = some (d.opens item).1 ∧
      Stocked (call garbage v (.opens names)).2 k stale image (Image.rootOffset label) (d.opens item).2 := by
  have free := stocked.free
  unfold call Desk.opens
  dsimp only
  cases slot : d.free with
  | none =>
      rw [slot] at free
      have ran : v.vfsOpen (pathOf names) = (.error (-emfile), v) := by
        unfold vfsOpen
        rw [answer]
        dsimp only
        rw [free]
      rw [ran]
      exact ⟨rfl, stocked⟩
  | some fd =>
      rw [slot] at free
      rw [vfsOpen_found answer free]
      exact ⟨rfl, stocked.opened (allocFile_free free).1 described fits⟩

theorem call_open_failed (garbage : Int) {errno : Int} (answer : v.vfsStat (pathOf names) = .error errno) :
    call garbage v (.opens names) = (some (errno, []), v) := by
  have ran : v.vfsOpen (pathOf names) = (.error errno, v) := by
    unfold vfsOpen
    rw [answer]
  unfold call
  dsimp only
  rw [ran]

theorem Stocked.opens (stocked : Stocked v k stale image (Image.rootOffset label) d) (volume : image.Volume label entries)
    (small : ∀ names content, (Item.dir entries).find names = some (.file content) → content.length < 2147483648)
    (garbage : Int) (proper : ∀ name ∈ names, StepName name ∧ name.length ≤ nameMax)
    (top : names.head? ≠ some Image.dot) :
    (call garbage v (.opens names)).1 = some (d.serve entries (.opens names)).1 ∧
      Stocked (call garbage v (.opens names)).2 k stale image (Image.rootOffset label)
        (d.serve entries (.opens names)).2 := by
  have stands := volume.stands
  unfold Desk.serve
  dsimp only
  cases led : (Item.dir entries).resolve names with
  | ok item =>
      have found := resolve_ok led
      by_cases more : names = []
      · obtain rfl := more
        obtain rfl := Option.some.inj ((find_nil _).symm.trans found)
        obtain ⟨s, answer, described⟩ := stocked.on.stat_root volume
        exact stocked.open_found garbage answer described fun content same => by cases same
      · obtain ⟨node, s, answer, ino, described, here⟩ := stocked.on.stat_found stands more found
        refine stocked.open_found garbage answer described fun content same => ?_
        rw [same] at found here
        exact ⟨small names content found, node, ino, here⟩
  | error errno =>
      have answer : v.vfsStat (pathOf names) = .error errno := by
        rcases resolve_error led with ⟨rfl, before, name, others, inner, rfl, there, missing⟩ |
            ⟨rfl, before, others, content, rfl, more, there⟩
        · refine stocked.on.stat_astray stands there (fun step member => proper step (List.mem_append_right _ member))
            (fun first => ?_) missing
          rw [first] at top
          intro front
          rw [List.mem_singleton.1 front] at top
          exact top rfl
        · exact stocked.on.stat_below stands there more fun name member => (proper name (List.mem_append_right _ member)).1
      rw [call_open_failed garbage answer]
      exact ⟨rfl, stocked⟩

/-! ## Whole sessions -/

theorem Stocked.serves (stocked : Stocked v k stale image (Image.rootOffset label) d) (volume : image.Volume label entries)
    (small : ∀ names content, (Item.dir entries).find names = some (.file content) → content.length < 2147483648)
    (garbage : Int) {request : Request} (allowed : d.Allowed request) :
    (call garbage v request).1 = some (d.serve entries request).1 ∧
      Stocked (call garbage v request).2 k stale image (Image.rootOffset label) (d.serve entries request).2 := by
  cases request with
  | opens names => exact stocked.opens volume small garbage allowed.1 allowed.2
  | close fd => exact stocked.close garbage allowed
  | read fd count => exact stocked.read garbage allowed.1 allowed.2.1 allowed.2.2
  | seek fd offset whence =>
      obtain ⟨content, pos, own, fits⟩ := allowed
      exact stocked.seek garbage own fits
  | tell fd =>
      obtain ⟨content, pos, own⟩ := allowed
      rw [stocked.tell garbage own]
      exact ⟨rfl, stocked⟩

theorem Stocked.session (stocked : Stocked v k stale image (Image.rootOffset label) d) (volume : image.Volume label entries)
    (small : ∀ names content, (Item.dir entries).find names = some (.file content) → content.length < 2147483648)
    (garbage : Int) {requests : List Request}
    (legal : Sessions.Legal (fun d request => d.serve entries request) Desk.Allowed d requests) :
    (Sessions.run (call garbage) v requests).1 =
      (Sessions.run (fun d request => d.serve entries request) d requests).1.map some := by
  induction requests generalizing v d with
  | nil => rfl
  | cons request requests ih =>
      obtain ⟨allowed, later⟩ := legal
      obtain ⟨answered, stocked'⟩ := stocked.serves volume small garbage allowed
      rw [Sessions.run_cons, Sessions.run_cons, List.map_cons, answered, ih stocked' later]

end Opening

/-- A mount on `/` leaves the table of files as it is. -/
theorem vfsMount_file (v : Vfs Instances) (dev : Nat) (fs : String) : (v.vfsMount dev [slash] fs).2.file = v.file := by
  unfold vfsMount
  cases v.findType fs with
  | none => rfl
  | some type =>
      cases v.freeMount with
      | none => rfl
      | some i =>
          have claimed : v.claimMount i [slash] =
              .value (v.setMount i { v.mount i with dev := allOnes, inode := allOnes }) := if_pos rfl
          dsimp only
          rw [claimed]
          unfold completeMount
          dsimp only
          split
          · rfl
          · rfl
          · rfl

/-- A volume is mounted, and then any calls follow, on any number of descriptors at once: each answer is
that of a desk where every descriptor has its own position in the bytes of its own file, the least free
descriptor is given out, and a path that leads nowhere says why. -/
theorem sessions_answered {v : Vfs Instances} {stale : ByteMem} {dev : Nat} {image : Image} {label : List UInt8}
    {entries : Entries} (boot : Boot v stale dev image) (volume : image.Volume label entries)
    (small : ∀ names content, (Item.dir entries).find names = some (.file content) → content.length < 2147483648)
    (garbage : Int) {requests : List Request}
    (legal : Sessions.Legal (fun d request => d.serve entries request) Desk.Allowed (Desk.found v) requests) :
    ∃ after, v.vfsMount dev [slash] "romfs" = (.value (), after) ∧
      (Sessions.run (call garbage) after requests).1 =
        (Sessions.run (fun d request => d.serve entries request) (Desk.found v) requests).1.map some := by
  obtain ⟨k, after, mounted, on, -⟩ := boot.mounts volume
  have files : after.file = v.file := by
    have kept := vfsMount_file v dev "romfs"
    rw [mounted] at kept
    exact kept
  have stocked : Stocked after k stale image (Image.rootOffset label) (Desk.found v) := by
    refine ⟨on, fun fd inTable => ?_, fun fd outside => if_neg fun inside => Nat.not_lt.2 outside inside.1⟩
    unfold Desk.found
    cases used : (v.file fd).isUsed with
    | true =>
        rw [if_pos ⟨inTable, rfl⟩]
        exact (congrArg (fun file => (file fd).isUsed) files).trans used
    | false =>
        rw [if_neg fun inside => Bool.false_ne_true inside.2]
        exact (congrArg (fun file => (file fd).isUsed) files).trans used
  exact ⟨after, mounted, stocked.session volume small garbage legal⟩

theorem smallTree_files {found : List UInt8} {names : List (List UInt8)}
    (led : (Item.dir smallTree).find names = some (.file found)) : found = [97, 98, 99] ∨ found = [104, 105] := by
  cases names with
  | nil => cases led
  | cons name names =>
      obtain ⟨next, looked, rest⟩ := find_step led
      unfold smallTree Entries.lookup at looked
      split at looked
      · obtain rfl := Option.some.inj looked
        cases names with
        | nil => cases rest
        | cons name names =>
            obtain ⟨next, looked, rest⟩ := find_step rest
            unfold Entries.lookup at looked
            split at looked
            · obtain rfl := Option.some.inj looked
              exact Or.inl (Item.file.inj (find_file rest).2)
            · cases looked
      · unfold Entries.lookup at looked
        split at looked
        · obtain rfl := Option.some.inj looked
          exact Or.inr (Item.file.inj (find_file rest).2)
        · cases looked

/-- `/d/f` is read in turn with `/a`, sought in and closed. -/
def turns : List Request :=
  [.opens [[100], [102]], .read 0 2, .opens [[97]], .read 1 10, .read 0 10, .seek 0 (-2) 1, .read 0 1, .close 0,
    .read 0 1, .read (-2) 1, .opens []]

theorem sessions_answered_turns : ∃ after,
    (bootOn treeVolume).vfsMount 0 [slash] "romfs" = (.value (), after) ∧
      (Sessions.run (call 0) after turns).1 =
        [(0, []), (2, [97, 98]), (1, []), (2, [104, 105]), (1, [99]), (0, []), (1, [98]), (0, []), (-9, []),
          (-9, []), (0, [])].map some := by
  have small : ∀ names content, (Item.dir smallTree).find names = some (.file content) →
      content.length < 2147483648 := by
    intro names content led
    rcases smallTree_files led with rfl | rfl
    · decide
    · decide
  have answers : (Sessions.run (fun d request => Desk.serve smallTree d request)
      (Desk.found (bootOn treeVolume)) turns).1 =
        [(0, []), (2, [97, 98]), (1, []), (2, [104, 105]), (1, [99]), (0, []), (1, [98]), (0, []), (-9, []),
          (-9, []), (0, [])] := by decide +kernel
  have below : ∀ name ∈ [[(100 : UInt8)], [102]], StepName name ∧ name.length ≤ nameMax := by
    intro name member
    rcases List.mem_cons.1 member with rfl | last
    · exact ⟨⟨by decide, by decide⟩, by decide⟩
    · rw [List.mem_singleton.1 last]
      exact ⟨⟨by decide, by decide⟩, by decide⟩
  have beside : ∀ name ∈ [[(97 : UInt8)]], StepName name ∧ name.length ≤ nameMax := by
    intro name member
    rw [List.mem_singleton.1 member]
    exact ⟨⟨by decide, by decide⟩, by decide⟩
  have none : ∀ name ∈ ([] : List (List UInt8)), StepName name ∧ name.length ≤ nameMax :=
    fun name member => absurd member List.not_mem_nil
  rw [← answers]
  exact @sessions_answered _ _ 0 _ [] _ (bootOn_boot treeVolume) treeVolume_volume small 0 _
    ⟨⟨below, by decide⟩, ⟨by decide, by decide +kernel, by decide⟩, ⟨beside, by decide⟩, ⟨by decide, by decide +kernel, by decide⟩,
      ⟨by decide, by decide +kernel, by decide⟩, ⟨[97, 98, 99], 3, by decide +kernel, fun there target => by
        obtain rfl := Option.some.inj target
        decide⟩,
      ⟨by decide, by decide +kernel, by decide⟩, Or.inr (Or.inr (Or.inr ⟨[97, 98, 99], 2, by decide +kernel⟩)),
      ⟨by decide, by decide +kernel, by decide⟩, ⟨by decide, by decide +kernel, by decide⟩, ⟨none, by decide⟩, trivial⟩

end TrollOS.Romfs
