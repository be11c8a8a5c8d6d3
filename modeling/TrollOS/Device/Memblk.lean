import TrollOS.Device.Registry
import TrollOS.Lib.ByteMemory

/-!
# Memory block devices

`kernel/modules/blockdev/memblk.c`.  `none` as a result says that the code leaves the array of
descriptors or the device table.
-/

namespace TrollOS

open TrollOS.Lib

def maxMemblk : Nat := 4

def intMax : Nat := 2147483647

structure MemblkDescriptor where
  addr : Nat
  len : Int
  device : Nat

/-- The descriptors, and the devices that are registered. -/
structure Memblk where
  memblk : Nat → MemblkDescriptor
  registry : Registry

/-- A call of `memblk_open`; `allocated` says whether `device_register` finds memory. -/
structure Opening where
  ptr : Nat
  length : Nat
  allocated : Bool

structure Opened where
  number : Nat
  ptr : Nat
  length : Nat

def memblkName : List UInt8 := [109, 101, 109, 98, 108, 107, 48]

namespace Memblk

def locateDevice (m : Memblk) (device : Nat) : Option Nat :=
  (List.range maxMemblk).find? fun i =>
    decide (0 ≤ (m.memblk i).len) && decide ((m.memblk i).device = device)

def alloc (m : Memblk) : Option Nat :=
  (List.range maxMemblk).find? fun i => decide ((m.memblk i).len < 0)

def setDescriptor (m : Memblk) (d : Nat) (entry : MemblkDescriptor) : Memblk :=
  { m with memblk := fun i => if i = d then entry else m.memblk i }

def init (m : Memblk) : Memblk :=
  { m with memblk := fun i => if i < maxMemblk then { m.memblk i with len := -1 } else m.memblk i }

/-- What `memblk_open` hands to `device_register`; `dev` is the address of its one `struct Device`. -/
def registration (dev number : Nat) (allocated : Bool) : Registration :=
  ⟨memblkName, dev, number, allocated, by decide⟩

/-- `memblk_open`.  Without a free descriptor the length and the address are stored in front of the
array. -/
def memblkOpen (dev : Nat) (m : Memblk) (o : Opening) : Option (Int × Memblk) :=
  if intMax ≤ o.length then some (-einval, m)
  else
    match m.alloc with
    | none => none
    | some d =>
        (m.registry.register (registration dev (m.memblk d).device o.allocated)).map
          fun (ret, number, registry) =>
            (ret, { m.setDescriptor d ⟨o.ptr, o.length, number⟩ with registry })

/-- The end of `memblk_read`: the value returned, and the addresses whose bytes go to `buf`. -/
def copied (addr : Nat) (pos : Int) (count : Nat) : Int × List Nat :=
  if pos < 0 then (-eio, [])
  else (toInt32 count, (List.range count).map fun i => u32 (addr + (pos.toNat + i)))

def read (m : Memblk) (device : Nat) (pos : Int) (count : Nat) : Int × List Nat :=
  match m.locateDevice device with
  | none => (-enoent, [])
  | some blk =>
      let entry := m.memblk blk
      if entry.len < toInt64 (pos + count) then
        if entry.len < pos then (-eio, []) else copied entry.addr pos (u32 (entry.len - pos).toNat)
      else copied entry.addr pos count

/-- `device_register` refuses the device, or there is no descriptor for it. -/
def CannotSucceed (dev : Nat) (m : Memblk) (o : Opening) : Prop :=
  m.alloc = none ∨ ∀ number, ∀ result number' registry,
    m.registry.register (registration dev number o.allocated) = some (result, number', registry) → result < 0

/-- An opening that cannot succeed fails and leaves the descriptors as they are. -/
def OpenRight (dev : Nat) (m : Memblk) (o : Opening) : Prop :=
  ∃ ret m', m.memblkOpen dev o = some (ret, m') ∧ (m.CannotSucceed dev o → ret < 0 ∧ m'.memblk = m.memblk)

/-- A read fails without a copy, or copies the bytes of the region from `pos` on, as many as there
are. -/
def ReadRight (m : Memblk) (o : Opened) (pos : Int) (count : Nat) : Prop :=
  ((m.read o.number pos count).1 < 0 ∧ (m.read o.number pos count).2 = []) ∨
    ∃ start n : Nat, pos = start ∧ start + n ≤ o.length ∧ n = min count (o.length - start) ∧
      m.read o.number pos count = ((n : Int), (List.range n).map fun i => u32 (o.ptr + (start + i)))

/-- The length is refused, or a descriptor is free and the registration goes through. -/
def Meets (m : Memblk) (o : Opening) : Prop :=
  intMax ≤ o.length ∨
    (m.alloc ≠ none ∧ m.registry.majorFree < deviceMax ∧ o.allocated = true)

/-- The states behind `memblk_init` and openings that are `allowed`, among which other drivers may
register devices, with the devices opened so far. -/
inductive Run (dev : Nat) (allowed : Memblk → Opening → Prop) : Memblk → List Opened → Prop where
  | init {m : Memblk} : m.registry.Reachable → Run dev allowed m.init []
  | other {m : Memblk} {opened : List Opened} {c : Registration} {result : Int} {number : Nat}
      {registry : Registry} : Run dev allowed m opened →
      m.registry.register c = some (result, number, registry) →
      Run dev allowed { m with registry } opened
  | opening {m m' : Memblk} {opened : List Opened} {o : Opening} {ret : Int} :
      Run dev allowed m opened → allowed m o → m.memblkOpen dev o = some (ret, m') →
      Run dev allowed m' (if 0 ≤ ret then ⟨m.registry.devno, o.ptr, o.length⟩ :: opened else opened)

/-- Used descriptors have numbers of their own, and the opened devices have their descriptors. -/
structure Sound (m : Memblk) (opened : List Opened) : Prop where
  filled : m.registry.Filled
  old : ∀ d, d < maxMemblk → 0 ≤ (m.memblk d).len → (m.memblk d).device < m.registry.devno
  apart : ∀ d e, d < maxMemblk → e < maxMemblk → 0 ≤ (m.memblk d).len → 0 ≤ (m.memblk e).len →
    (m.memblk d).device = (m.memblk e).device → d = e
  found : ∀ o ∈ opened, o.length < intMax ∧
    ∃ d, d < maxMemblk ∧ m.memblk d = ⟨o.ptr, o.length, o.number⟩

section Steps

variable {dev : Nat} {m m' : Memblk} {opened : List Opened} {o : Opening} {d : Nat} {ret : Int}

theorem devno_eq {r : Registry} (filled : r.Filled) : r.devno = r.majorFree * 65536 + 1 := by
  have high := filled.high
  unfold Registry.devno makedev deviceMax at *
  omega

/-- The number of a registration, and the numbers behind it. -/
theorem register_number {r after : Registry} {c : Registration} {result : Int} {number : Nat}
    (filled : r.Filled) (ran : r.register c = some (result, number, after)) :
    number = r.devno ∧ r.devno ≤ after.devno ∧ (0 ≤ result → r.devno < after.devno) := by
  have filled' := filled.register ran
  rw [devno_eq filled', devno_eq filled]
  rcases Registry.register_cases filled c with ⟨-, out⟩ | ⟨-, -, out⟩ | ⟨room, -, out⟩
  · exact nomatch ran.symm.trans out
  · cases out.symm.trans ran
    exact ⟨devno_eq filled, Nat.le_refl _, fun nonneg => absurd nonneg (by decide)⟩
  · cases out.symm.trans ran
    refine ⟨devno_eq filled, ?_, fun _ => ?_⟩
    · dsimp only
      omega
    · dsimp only
      omega

theorem alloc_free (free : m.alloc = some d) : d < maxMemblk ∧ (m.memblk d).len < 0 :=
  ⟨List.mem_range.1 (List.mem_of_find?_eq_some free),
    of_decide_eq_true (List.find?_some (p := fun i => decide ((m.memblk i).len < 0)) free)⟩

theorem setDescriptor_same (m : Memblk) (d : Nat) (entry : MemblkDescriptor) :
    (m.setDescriptor d entry).memblk d = entry := if_pos rfl

theorem setDescriptor_other {e : Nat} (other : e ≠ d) (entry : MemblkDescriptor) :
    (m.setDescriptor d entry).memblk e = m.memblk e := if_neg other

/-- Everything an opening does. -/
theorem open_cases (filled : m.registry.Filled) (o : Opening) :
    (intMax ≤ o.length ∧ m.memblkOpen dev o = some (-einval, m)) ∨
      (o.length < intMax ∧ (m.alloc = none ∨ deviceMax ≤ m.registry.majorFree) ∧ m.memblkOpen dev o = none) ∨
      ∃ d registry ret, o.length < intMax ∧ m.alloc = some d ∧ m.registry.majorFree < deviceMax ∧
        m.registry.register (registration dev (m.memblk d).device o.allocated) =
          some (ret, m.registry.devno, registry) ∧
        m.memblkOpen dev o = some (ret, { m.setDescriptor d ⟨o.ptr, o.length, m.registry.devno⟩ with registry }) ∧
        (o.allocated = true ↔ 0 ≤ ret) := by
  by_cases long : intMax ≤ o.length
  · exact Or.inl ⟨long, if_pos long⟩
  · have short := Nat.lt_of_not_le long
    have body : m.memblkOpen dev o = (match m.alloc with
      | none => none
      | some d => (m.registry.register (registration dev (m.memblk d).device o.allocated)).map
          fun (ret, number, registry) =>
            (ret, { m.setDescriptor d ⟨o.ptr, o.length, number⟩ with registry })) := if_neg long
    cases free : m.alloc with
    | none =>
        rw [free] at body
        exact Or.inr (Or.inl ⟨short, Or.inl rfl, body⟩)
    | some d =>
        rw [free] at body
        dsimp only at body
        rcases Registry.register_cases filled (registration dev (m.memblk d).device o.allocated) with
          ⟨full, out⟩ | ⟨room, refused, out⟩ | ⟨room, allocated, out⟩
        · rw [out] at body
          exact Or.inr (Or.inl ⟨short, Or.inr full, body⟩)
        · rw [out] at body
          refine Or.inr (Or.inr ⟨d, _, -enomem, short, rfl, room, out, body, ?_⟩)
          have none' : o.allocated = false := refused
          rw [none']
          decide
        · rw [out] at body
          refine Or.inr (Or.inr ⟨d, _, 0, short, rfl, room, out, body, ?_⟩)
          have some' : o.allocated = true := allocated
          rw [some']
          decide

/-- An opening is right exactly when it meets the condition. -/
theorem openRight_iff (filled : m.registry.Filled) (o : Opening) : m.OpenRight dev o ↔ m.Meets o := by
  rcases @open_cases dev m filled o with ⟨long, out⟩ | ⟨short, stuck, out⟩ |
    ⟨d, registry, ret, short, free, room, ran, out, accepted⟩
  · refine ⟨fun _ => Or.inl long, fun _ => ⟨_, m, out, fun _ => ⟨by decide, rfl⟩⟩⟩
  · constructor
    · rintro ⟨ret, m', ran, -⟩
      exact nomatch ran.symm.trans out
    · rintro (long | ⟨free, room, -⟩)
      · exact absurd short (Nat.not_lt_of_le long)
      · rcases stuck with none' | full
        · exact absurd none' free
        · exact absurd room (Nat.not_lt_of_le full)
  · have negative := (alloc_free free).2
    constructor
    · rintro ⟨ret', m', ran', fails⟩
      refine Or.inr ⟨fun none' => absurd (free.symm.trans none') (Option.some_ne_none d), room, ?_⟩
      by_contra refused
      have lost : ret < 0 := Int.lt_of_not_ge fun nonneg => refused (accepted.2 nonneg)
      cases out.symm.trans ran'
      have kept := (fails (Or.inr ?_)).2
      · have here := congrFun kept d
        rw [setDescriptor_same] at here
        rw [← here] at negative
        dsimp only at negative
        omega
      · intro number result number' registry' again
        have none' : o.allocated = false := Bool.eq_false_iff.2 refused
        rcases Registry.register_cases filled (registration dev number o.allocated) with
          ⟨-, out'⟩ | ⟨-, -, out'⟩ | ⟨-, allocated, -⟩
        · exact nomatch again.symm.trans out'
        · cases out'.symm.trans again
          decide
        · exact absurd allocated refused
    · rintro (long | ⟨-, -, allocated⟩)
      · exact absurd short (Nat.not_lt_of_le long)
      · refine ⟨_, _, out, fun cannot => ?_⟩
        rcases cannot with none' | refused
        · exact nomatch free.symm.trans none'
        · exact absurd (accepted.1 allocated) (Int.not_le.2 (refused _ _ _ _ ran))

/-- An opened device is found at its own descriptor. -/
theorem Sound.located {opened : List Opened} {x : Opened} (sound : m.Sound opened) (member : x ∈ opened) :
    ∃ d, m.locateDevice x.number = some d ∧ m.memblk d = ⟨x.ptr, x.length, x.number⟩ := by
  obtain ⟨-, e, below, entry⟩ := sound.found x member
  have used : 0 ≤ (m.memblk e).len := by
    rw [entry]
    exact Int.natCast_nonneg _
  cases found : m.locateDevice x.number with
  | none =>
      have missed := List.find?_eq_none.1 found e (List.mem_range.2 below)
      rw [entry] at missed used
      exact absurd (Bool.and_eq_true_iff.2 ⟨decide_eq_true used, decide_eq_true rfl⟩) missed
  | some d =>
      have hit := List.find?_some (p := fun i =>
        decide (0 ≤ (m.memblk i).len) && decide ((m.memblk i).device = x.number)) found
      obtain ⟨used', same⟩ := Bool.and_eq_true_iff.1 hit
      have at' := sound.apart d e (List.mem_range.1 (List.mem_of_find?_eq_some found)) below
        (of_decide_eq_true used') used (by rw [of_decide_eq_true same, entry])
      exact ⟨d, rfl, at' ▸ entry⟩

theorem sound_init (m : Memblk) (filled : m.registry.Filled) : m.init.Sound [] where
  filled := filled
  old := fun d below used => by
    have none' : (m.init.memblk d).len = -1 := congrArg MemblkDescriptor.len (if_pos below)
    omega
  apart := fun d _ below _ used => by
    have none' : (m.init.memblk d).len = -1 := congrArg MemblkDescriptor.len (if_pos below)
    omega
  found := fun _ member => absurd member List.not_mem_nil

theorem Sound.other {c : Registration} {result : Int} {number : Nat} {registry : Registry}
    (sound : m.Sound opened) (ran : m.registry.register c = some (result, number, registry)) :
    Memblk.Sound { m with registry } opened where
  filled := sound.filled.register ran
  old := fun d below used => Nat.lt_of_lt_of_le (sound.old d below used) (register_number sound.filled ran).2.1
  apart := sound.apart
  found := sound.found

/-- An opening that meets the condition. -/
theorem Sound.opening (sound : m.Sound opened) (meets : m.Meets o) (ran : m.memblkOpen dev o = some (ret, m')) :
    m'.Sound (if 0 ≤ ret then ⟨m.registry.devno, o.ptr, o.length⟩ :: opened else opened) := by
  rcases @open_cases dev m sound.filled o with ⟨-, out⟩ | ⟨-, -, out⟩ |
    ⟨d, registry, ret', short, free, room, registered, out, accepted⟩
  · cases out.symm.trans ran
    rw [if_neg (by decide)]
    exact sound
  · exact nomatch ran.symm.trans out
  · cases out.symm.trans ran
    have allocated : o.allocated = true := by
      rcases meets with long | ⟨-, -, allocated⟩
      · exact absurd short (Nat.not_lt_of_le long)
      · exact allocated
    have success : 0 ≤ ret := accepted.1 allocated
    obtain ⟨-, -, later⟩ := register_number sound.filled registered
    obtain ⟨below, unused⟩ := alloc_free free
    have fresh : ∀ e, e < maxMemblk → 0 ≤ (m.memblk e).len → (m.memblk e).device ≠ m.registry.devno :=
      fun e inArray used => Nat.ne_of_lt (sound.old e inArray used)
    have same := setDescriptor_same m d ⟨o.ptr, o.length, m.registry.devno⟩
    have others : ∀ e, e ≠ d → (m.setDescriptor d ⟨o.ptr, o.length, m.registry.devno⟩).memblk e = m.memblk e :=
      fun e other => setDescriptor_other other _
    rw [if_pos success]
    refine ⟨sound.filled.register registered, fun e inArray used => ?_, fun e f inArray inArray' used used' number => ?_,
      fun x member => ?_⟩
    · by_cases here : e = d
      · subst here
        rw [same]
        exact later success
      · dsimp only at used ⊢
        rw [others e here] at used ⊢
        exact Nat.lt_trans (sound.old e inArray used) (later success)
    · dsimp only at used used' number
      by_cases here : e = d
      · by_cases there : f = d
        · rw [here, there]
        · rw [here, same, others f there] at number
          rw [others f there] at used'
          exact absurd number.symm (fresh f inArray' used')
      · rw [others e here] at used number
        by_cases there : f = d
        · rw [there, same] at number
          exact absurd number (fresh e inArray used)
        · rw [others f there] at used' number
          exact sound.apart e f inArray inArray' used used' number
    · rcases List.mem_cons.1 member with new | member
      · subst new
        exact ⟨short, d, below, same⟩
      · obtain ⟨small, e, inArray, entry⟩ := sound.found x member
        refine ⟨small, e, inArray, ?_⟩
        have used : 0 ≤ (m.memblk e).len := by
          rw [entry]
          exact Int.natCast_nonneg _
        have other : e ≠ d := by
          rintro rfl
          omega
        exact (others e other).trans entry

theorem reachable_filled {r : Registry} (reached : r.Reachable) : r.Filled := by
  induction reached with
  | empty => exact Registry.empty_filled
  | register _ ran ih => exact ih.register ran

theorem Run.sound (run : Run dev Meets m opened) : m.Sound opened := by
  induction run with
  | init reached => exact sound_init _ (reachable_filled reached)
  | other _ ran ih => exact ih.other ran
  | opening _ meets ran ih => exact ih.opening meets ran

end Steps

section Reading

variable {m : Memblk} {opened : List Opened} {x : Opened} {pos : Int} {count : Nat}

theorem copied_before (addr : Nat) (before : pos < 0) (count : Nat) : copied addr pos count = (-eio, []) :=
  if_pos before

theorem copied_from (addr start : Nat) {count : Nat} (small : count < 2147483648) :
    copied addr start count = ((count : Int), (List.range count).map fun i => u32 (addr + (start + i))) := by
  have signed : toInt32 count = (count : Int) := if_pos small
  unfold copied
  rw [if_neg (Int.not_lt.2 (Int.natCast_nonneg start)), signed, Int.toNat_natCast]

/-- What a read of an opened device computes. -/
theorem Sound.read_eq (sound : m.Sound opened) (member : x ∈ opened) (pos : Int) (count : Nat) :
    m.read x.number pos count =
      if (x.length : Int) < toInt64 (pos + count) then
        if (x.length : Int) < pos then (-eio, []) else copied x.ptr pos (u32 ((x.length : Int) - pos).toNat)
      else copied x.ptr pos count := by
  obtain ⟨d, located, entry⟩ := sound.located member
  unfold read
  rw [located]
  dsimp only
  rw [entry]

/-- Without an overflow a read is right. -/
theorem Sound.read_right (sound : m.Sound opened) (member : x ∈ opened)
    (low : -9223372036854775808 ≤ pos) (high : pos + count < 9223372036854775808) : m.ReadRight x pos count := by
  have short : x.length < 2147483647 := (sound.found x member).1
  have ran := sound.read_eq member pos count
  rw [toInt64_eq (by omega) high] at ran
  unfold ReadRight
  rw [ran]
  by_cases before : pos < 0
  · left
    rw [copied_before _ before, copied_before _ before, if_neg (by omega : ¬ (x.length : Int) < pos)]
    split <;> exact ⟨by decide, rfl⟩
  · obtain ⟨start, rfl⟩ := Int.eq_ofNat_of_zero_le (Int.not_lt.1 before)
    by_cases beyond : (x.length : Int) < start + count
    · rw [if_pos beyond]
      by_cases outside : (x.length : Int) < start
      · rw [if_pos outside]
        exact Or.inl ⟨by decide, rfl⟩
      · have left' : u32 ((x.length : Int) - start).toNat = x.length - start := by
          unfold u32
          omega
        rw [if_neg outside, left', copied_from _ _ (by omega)]
        exact Or.inr ⟨start, x.length - start, rfl, by omega, by omega, rfl⟩
    · rw [if_neg beyond, copied_from _ _ (by omega)]
      exact Or.inr ⟨start, count, rfl, by omega, by omega, rfl⟩

/-- When the sum overflows, bytes outside the region are copied. -/
theorem Sound.read_outside (sound : m.Sound opened) (member : x ∈ opened) (high : pos < 9223372036854775808)
    (small : count < 4294967296) (above : 9223372036854775808 ≤ pos + count) : ¬ m.ReadRight x pos count := by
  have short : x.length < 2147483647 := (sound.found x member).1
  have ran := sound.read_eq member pos count
  have wrapped : toInt64 (pos + count) < 0 := by
    rw [toInt64_wrapped above (by omega)]
    omega
  rw [if_neg (by omega)] at ran
  unfold copied at ran
  rw [if_neg (by omega)] at ran
  rintro (⟨-, none'⟩ | ⟨start, n, here, inside, -⟩)
  · rw [ran, List.map_eq_nil_iff, List.range_eq_nil] at none'
    omega
  · omega

end Reading

/-- In every run whose openings meet the condition, an opening is right exactly when it meets it, and
a read of an opened device exactly when the end of the range fits into 64 bits. -/
theorem memblk_right_iff {dev : Nat} {m : Memblk} {opened : List Opened} (run : Run dev Meets m opened) :
    (∀ o, m.OpenRight dev o ↔ m.Meets o) ∧
      ∀ x ∈ opened, ∀ pos : Int, ∀ count : Nat, -9223372036854775808 ≤ pos → pos < 9223372036854775808 →
        count < 4294967296 → (m.ReadRight x pos count ↔ pos + count < 9223372036854775808) := by
  have sound := run.sound
  refine ⟨openRight_iff sound.filled, fun x member pos count low high small => ⟨fun right => ?_, ?_⟩⟩
  · by_contra above
    exact sound.read_outside member high small (Int.not_lt.1 above) right
  · exact sound.read_right member low

def fresh : Memblk := ⟨fun _ => ⟨0, 0, 0⟩, Registry.empty⟩

def oneOpened : Memblk where
  memblk := fun i => if i = 0 then ⟨8192, 512, 65537⟩ else fresh.init.memblk i
  registry := ⟨fun i => if i = 1 then some ⟨memblkName, 4096⟩ else none, 2⟩

theorem fresh_open : fresh.init.memblkOpen 4096 ⟨8192, 512, true⟩ = some (0, oneOpened) := by
  have free : fresh.init.alloc = some 0 := by decide
  have registered : Registry.empty.register (registration 4096 0 true) = some (0, 65537, oneOpened.registry) := by
    rcases Registry.register_cases Registry.empty_filled (registration 4096 0 true) with
      ⟨full, -⟩ | ⟨-, refused, -⟩ | ⟨-, -, out⟩
    · exact absurd full (by decide)
    · exact nomatch refused
    · exact out
  unfold memblkOpen
  rw [if_neg (by decide), free]
  dsimp only
  change (Registry.empty.register (registration 4096 0 true)).map _ = _
  rw [registered]
  rfl

theorem fresh_meets : fresh.init.Meets ⟨8192, 512, true⟩ := Or.inr ⟨by decide, by decide, rfl⟩

theorem memblk_right_opened : oneOpened.ReadRight ⟨65537, 8192, 512⟩ 500 100 := by
  have run : Run 4096 Meets oneOpened [⟨65537, 8192, 512⟩] := .opening (.init .empty) fresh_meets fresh_open
  exact ((memblk_right_iff run).2 _ List.mem_cons_self 500 100 (by decide) (by decide) (by decide)).2 (by decide)

def more (m : Memblk) : Memblk := ((m.memblkOpen 4096 ⟨8192, 512, true⟩).map Prod.snd).getD m

theorem Run.more {m : Memblk} {opened : List Opened} {allowed : Memblk → Opening → Prop}
    (run : Run 4096 allowed m opened) (ok : allowed m ⟨8192, 512, true⟩)
    (returns : (m.memblkOpen 4096 ⟨8192, 512, true⟩).isSome = true) :
    ∃ opened', Run 4096 allowed m.more opened' := by
  obtain ⟨⟨ret, m'⟩, ran⟩ := Option.isSome_iff_exists.1 returns
  have next : m.more = m' := by
    unfold Memblk.more
    rw [ran]
    rfl
  rw [next]
  exact ⟨_, .opening run ok ran⟩

/-- With four devices open there is no descriptor for a fifth, and a read at the end of the 64-bit
range goes outside the device. -/
theorem memblk_outside :
    (∃ m opened o, Run 4096 (fun _ _ => True) m opened ∧ ¬ m.OpenRight 4096 o) ∧
      ∃ m x, Run 4096 (fun _ _ => True) m [x] ∧ ¬ m.ReadRight x 9223372036854775807 1 := by
  constructor
  · have none' : Run 4096 (fun _ _ => True) fresh.init [] := .init .empty
    obtain ⟨_, one⟩ := none'.more trivial (by decide +kernel)
    obtain ⟨_, two⟩ := one.more trivial (by decide +kernel)
    obtain ⟨_, three⟩ := two.more trivial (by decide +kernel)
    obtain ⟨opened, four⟩ := three.more trivial (by decide +kernel)
    refine ⟨_, opened, ⟨8192, 512, true⟩, four, ?_⟩
    rintro ⟨ret, m', ran, -⟩
    have stuck : fresh.init.more.more.more.more.memblkOpen 4096 ⟨8192, 512, true⟩ = none :=
      Option.isNone_iff_eq_none.1 (by decide +kernel)
    exact nomatch ran.symm.trans stuck
  · refine ⟨oneOpened, ⟨65537, 8192, 512⟩, .opening (.init .empty) trivial fresh_open, ?_⟩
    have run : Run 4096 Meets oneOpened [⟨65537, 8192, 512⟩] := .opening (.init .empty) fresh_meets fresh_open
    exact run.sound.read_outside List.mem_cons_self (by decide) (by decide) (by decide)

end Memblk

end TrollOS
