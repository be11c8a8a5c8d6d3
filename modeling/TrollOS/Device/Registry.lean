import TrollOS.Errno

/-!
# The device registry

`kernel/device.c`.  `none` as a result says that the code leaves the table or
follows a null pointer.  Majors are given out in order, so the table is always
filled from 1 on; nothing else keeps two registrations apart.
-/

namespace TrollOS

def deviceMax : Nat := 256

def deviceNameLen : Nat := 32

/-- `makedev` and `major` of `sys/types.h`. -/
def makedev (major minor : Nat) : Nat := major % 65536 * 65536 + minor % 65536

def major (dev : Nat) : Nat := dev / 65536

theorem major_makedev {number : Nat} (small : number < 65536) (minor : Nat) :
    major (makedev number minor) = number := by
  unfold major makedev
  omega

structure RegisteredDevice where
  name : List UInt8
  device : Nat
  deriving DecidableEq, Repr

/-- `_device_registered` and `major_free`.  A device is the address of its record. -/
structure Registry where
  slots : Nat → Option RegisteredDevice
  majorFree : Nat

/-- What `device_list` fills in. -/
structure DeviceRegistration where
  name : List UInt8
  device : Nat
  type : Int
  deriving DecidableEq, Repr

/-- A call of `device_register`: `number` is what the caller's variable holds before,
`allocated` says whether `kmalloc` finds memory. -/
structure Registration where
  name : List UInt8
  device : Nat
  number : Nat
  allocated : Bool
  short : name.length < deviceNameLen

namespace Registry

def empty : Registry := ⟨fun _ => none, 1⟩

def devno (r : Registry) : Nat := makedev r.majorFree 1

/-- The loop of `device_register`, which asks for the slot of the new number in every
round.  True: the name or the device is taken. -/
def scan (r : Registry) (name : List UInt8) (device : Nat) : List Nat → Option Bool
  | [] => some false
  | i :: rest =>
      match r.slots (major r.devno) with
      | none => scan r name device rest
      | some _ =>
          match r.slots i with
          | none => none
          | some entry =>
              if entry.name = name ∨ device = entry.device then some true
              else scan r name device rest

/-- `device_register`: the return value, the caller's number afterwards, the table. -/
def register (r : Registry) (c : Registration) : Option (Int × Nat × Registry) :=
  if deviceMax ≤ r.majorFree then none
  else
    (r.scan c.name c.device (List.range deviceMax)).map fun taken =>
      if taken then (-1, r.devno, r)
      else if ¬ c.allocated then (-enomem, r.devno, r)
      else
        (0, r.devno,
          { slots := fun i => if i = r.majorFree then some ⟨c.name, c.device⟩ else r.slots i
            majorFree := r.majorFree + 1 })

def lookup (r : Registry) (number : Nat) : Option (Option Nat) :=
  if deviceMax ≤ major number then none
  else some ((r.slots (major number)).map RegisteredDevice.device)

/-- `device_lookup_name`: the number, 0 if there is none, and the device. -/
def lookupName (r : Registry) (name : List UInt8) : Nat × Option Nat :=
  match (List.range deviceMax).find? fun i => (r.slots i).any (·.name = name) with
  | some i => (makedev i 1, (r.slots i).map RegisteredDevice.device)
  | none => (0, none)

/-- `device_list`.  Its check is the wrong way round: an index of the table is refused,
and what gets past the check is no index of the table. -/
def list (_ : Registry) (id : Int) : Option (Except Int DeviceRegistration) :=
  if id < deviceMax then some (.error (-enoent)) else none

def Unique (r : Registry) : Prop :=
  ∀ i j entry other, i < deviceMax → j < deviceMax → r.slots i = some entry →
    r.slots j = some other → entry.name = other.name ∨ entry.device = other.device → i = j

/-- Every entry is found under its number and under its name. -/
def LookupRight (r : Registry) : Prop :=
  ∀ i entry, i < deviceMax → r.slots i = some entry →
    r.lookup (makedev i 1) = some (some entry.device) ∧
      r.lookupName entry.name = (makedev i 1, some entry.device)

/-- `device_list` gives each entry under its index, and nothing else. -/
def ListRight (r : Registry) (typeOf : Nat → Int) : Prop :=
  ∀ i, i < deviceMax → r.list i =
    some (match r.slots i with
      | some entry => .ok ⟨entry.name, makedev i 1, typeOf entry.device⟩
      | none => .error (-enoent))

def MustFail (r : Registry) (c : Registration) : Prop :=
  (∃ i entry, i < deviceMax ∧ r.slots i = some entry ∧
    (entry.name = c.name ∨ entry.device = c.device)) ∨
  ∀ i, i < deviceMax → r.slots i ≠ none

/-- The call stays inside the table, a registration that must fail fails without a
trace, and a successful one can be found under the number it gives out. -/
def RegisterRight (r : Registry) (c : Registration) : Prop :=
  ∃ result number after, r.register c = some (result, number, after) ∧
    (r.MustFail c → result < 0 ∧ number = c.number ∧ after = r) ∧
    (result = 0 → after.slots (major number) = some ⟨c.name, c.device⟩)

/-- There is room, and a registration that must fail fails for lack of memory, with the
next number already in the caller's variable. -/
def Meets (r : Registry) (c : Registration) : Prop :=
  r.majorFree < deviceMax ∧ (r.MustFail c → c.allocated = false ∧ c.number = r.devno)

inductive Reachable : Registry → Prop where
  | empty : Reachable empty
  | register {r after : Registry} {c : Registration} {result : Int} {number : Nat} :
      Reachable r → r.register c = some (result, number, after) → Reachable after

inductive MeetingRun : Registry → Prop where
  | empty : MeetingRun empty
  | register {r after : Registry} {c : Registration} {result : Int} {number : Nat} :
      MeetingRun r → r.Meets c → r.register c = some (result, number, after) → MeetingRun after

/-- The table is filled from 1 up to the next major. -/
structure Filled (r : Registry) : Prop where
  low : 1 ≤ r.majorFree
  high : r.majorFree ≤ deviceMax
  free : ∀ i, r.majorFree ≤ i → r.slots i = none
  zero : r.slots 0 = none

section Register

variable {r after : Registry} {c : Registration} {result : Int} {number : Nat}

theorem major_devno (filled : r.Filled) : major r.devno = r.majorFree := by
  apply major_makedev
  exact Nat.lt_of_le_of_lt filled.high (by decide)

/-- The scan looks at the free slot only and never finds anything. -/
theorem scan_eq (filled : r.Filled) (name : List UInt8) (device : Nat) (indices : List Nat) :
    r.scan name device indices = some false := by
  induction indices with
  | nil => rfl
  | cons i rest ih =>
      unfold scan
      rw [major_devno filled, filled.free _ (Nat.le_refl _)]
      exact ih

/-- Everything a registration does. -/
theorem register_cases (filled : r.Filled) (c : Registration) :
    (deviceMax ≤ r.majorFree ∧ r.register c = none) ∨
      (r.majorFree < deviceMax ∧ c.allocated = false ∧
        r.register c = some (-enomem, r.devno, r)) ∨
      (r.majorFree < deviceMax ∧ c.allocated = true ∧
        r.register c = some (0, r.devno,
          ⟨fun i => if i = r.majorFree then some ⟨c.name, c.device⟩ else r.slots i,
            r.majorFree + 1⟩)) := by
  unfold register
  by_cases full : deviceMax ≤ r.majorFree
  · exact Or.inl ⟨full, if_pos full⟩
  · have room := Nat.lt_of_not_le full
    rw [if_neg full, scan_eq filled]
    cases c.allocated with
    | false => exact Or.inr (Or.inl ⟨room, rfl, rfl⟩)
    | true => exact Or.inr (Or.inr ⟨room, rfl, rfl⟩)

theorem empty_filled : empty.Filled :=
  ⟨Nat.le_refl 1, by decide, fun _ _ => rfl, rfl⟩

theorem Filled.register (filled : r.Filled) (ran : r.register c = some (result, number, after)) :
    after.Filled := by
  rcases register_cases filled c with ⟨-, out⟩ | ⟨-, -, out⟩ | ⟨room, -, out⟩
  · exact nomatch ran.symm.trans out
  · obtain ⟨-, -, rfl⟩ : _ ∧ _ ∧ r = after := by
      simpa only [Prod.mk.injEq] using Option.some.inj (out.symm.trans ran)
    exact filled
  · obtain ⟨-, -, rfl⟩ : _ ∧ _ ∧ _ = after := by
      simpa only [Prod.mk.injEq] using Option.some.inj (out.symm.trans ran)
    constructor
    · exact Nat.le_succ_of_le filled.low
    · exact room
    · intro i above
      exact (if_neg (by dsimp only at above; omega)).trans (filled.free i (Nat.le_of_succ_le above))
    · exact (if_neg (Nat.ne_of_lt filled.low)).trans filled.zero

theorem Unique.register (filled : r.Filled) (unique : r.Unique) (meets : r.Meets c)
    (ran : r.register c = some (result, number, after)) : after.Unique := by
  rcases register_cases filled c with ⟨-, out⟩ | ⟨-, -, out⟩ | ⟨room, allocated, out⟩
  · exact nomatch ran.symm.trans out
  · obtain ⟨-, -, rfl⟩ : _ ∧ _ ∧ r = after := by
      simpa only [Prod.mk.injEq] using Option.some.inj (out.symm.trans ran)
    exact unique
  · obtain ⟨-, -, rfl⟩ : _ ∧ _ ∧ _ = after := by
      simpa only [Prod.mk.injEq] using Option.some.inj (out.symm.trans ran)
    have fresh : ∀ i entry, i < deviceMax → r.slots i = some entry →
        ¬ (entry.name = c.name ∨ entry.device = c.device) := by
      intro i entry small here taken
      have refused := (meets.2 (Or.inl ⟨i, entry, small, here, taken⟩)).1
      rw [allocated] at refused
      exact nomatch refused
    intro i j entry other smallI smallJ atI atJ same
    dsimp only at atI atJ
    by_cases newI : i = r.majorFree
    · by_cases newJ : j = r.majorFree
      · exact newI.trans newJ.symm
      · rw [if_pos newI] at atI
        rw [if_neg newJ] at atJ
        obtain rfl := Option.some.inj atI
        exact absurd (same.imp Eq.symm Eq.symm) (fresh j other smallJ atJ)
    · rw [if_neg newI] at atI
      by_cases newJ : j = r.majorFree
      · rw [if_pos newJ] at atJ
        obtain rfl := Option.some.inj atJ
        exact absurd same (fresh i entry smallI atI)
      · rw [if_neg newJ] at atJ
        exact unique i j entry other smallI smallJ atI atJ same

end Register

theorem Unique.lookupRight {r : Registry} (unique : r.Unique) : r.LookupRight := by
  intro i entry small here
  constructor
  · unfold lookup
    rw [major_makedev (Nat.lt_trans small (by decide)), if_neg (Nat.not_le_of_lt small), here]
    rfl
  · unfold lookupName
    cases found : (List.range deviceMax).find? fun i => (r.slots i).any (·.name = entry.name) with
    | none =>
        have missed := List.find?_eq_none.mp found i (List.mem_range.mpr small)
        rw [here] at missed
        exact absurd (decide_eq_true rfl) missed
    | some j =>
        have named := List.find?_some (p := fun i => (r.slots i).any (·.name = entry.name)) found
        have below := List.mem_range.mp (List.mem_of_find?_eq_some found)
        obtain ⟨other, there, same⟩ := (Option.any_eq_true _ _).mp named
        obtain rfl := unique j i other entry below small there here (Or.inl (of_decide_eq_true same))
        dsimp only
        rw [here]
        rfl

/-- `device_list` is right as long as there is nothing to list. -/
theorem listRight_iff (r : Registry) (typeOf : Nat → Int) :
    r.ListRight typeOf ↔ ∀ i, i < deviceMax → r.slots i = none := by
  constructor
  · intro right i small
    have listed := right i small
    unfold list at listed
    rw [if_pos (Int.ofNat_lt.mpr small)] at listed
    cases here : r.slots i with
    | none => rfl
    | some entry =>
        rw [here] at listed
        exact nomatch Option.some.inj listed
  · intro none i small
    unfold list
    rw [if_pos (Int.ofNat_lt.mpr small), none i small]

theorem registerRight_iff {r : Registry} (filled : r.Filled) (c : Registration) :
    r.RegisterRight c ↔ r.Meets c := by
  rcases register_cases filled c with ⟨full, out⟩ | ⟨room, refused, out⟩ | ⟨room, allocated, out⟩
  · constructor
    · rintro ⟨result, number, after, ran, -⟩
      exact nomatch ran.symm.trans out
    · intro meets
      exact absurd meets.1 (Nat.not_lt_of_le full)
  · constructor
    · rintro ⟨result, number, after, ran, fails, -⟩
      obtain ⟨-, rfl, -⟩ : _ ∧ r.devno = number ∧ _ := by
        simpa only [Prod.mk.injEq] using Option.some.inj (out.symm.trans ran)
      exact ⟨room, fun must => ⟨refused, (fails must).2.1.symm⟩⟩
    · intro meets
      refine ⟨_, _, _, out, fun must => ⟨by decide, (meets.2 must).2.symm, rfl⟩, ?_⟩
      intro success
      exact absurd success (by decide)
  · constructor
    · rintro ⟨result, number, after, ran, fails, -⟩
      obtain ⟨rfl, -, -⟩ : 0 = result ∧ _ ∧ _ := by
        simpa only [Prod.mk.injEq] using Option.some.inj (out.symm.trans ran)
      exact ⟨room, fun must => absurd (fails must).1 (Int.lt_irrefl 0)⟩
    · intro meets
      refine ⟨_, _, _, out, fun must => ?_, fun _ => ?_⟩
      · have refused := (meets.2 must).1
        rw [allocated] at refused
        exact nomatch refused
      · rw [major_devno filled]
        exact if_pos rfl

theorem MeetingRun.kept {r : Registry} (run : MeetingRun r) : r.Filled ∧ r.Unique := by
  induction run with
  | empty => exact ⟨empty_filled, fun i j entry other _ _ here => nomatch here⟩
  | register _ meets ran ih => exact ⟨ih.1.register ran, ih.2.register ih.1 meets ran⟩

/-- In every run whose registrations meet the condition the names and devices are kept
apart and both lookups find them; `device_list` is right while nothing is registered,
and the next call is right exactly when it meets the condition. -/
theorem registry_kept {r : Registry} (run : MeetingRun r) :
    r.Unique ∧ r.LookupRight ∧
      (∀ typeOf, r.ListRight typeOf ↔ ∀ i, i < deviceMax → r.slots i = none) ∧
      ∀ c, r.RegisterRight c ↔ r.Meets c :=
  ⟨run.kept.2, run.kept.2.lookupRight, r.listRight_iff, registerRight_iff run.kept.1⟩

def consoleRegistration : Registration := ⟨[99], 4096, 0, true, by decide⟩

def oneDevice : Registry := ⟨fun i => if i = 1 then some ⟨[99], 4096⟩ else none, 2⟩

theorem register_console : empty.register consoleRegistration = some (0, 65537, oneDevice) := by
  rcases register_cases empty_filled consoleRegistration with ⟨full, -⟩ | ⟨-, refused, -⟩ | ⟨-, -, out⟩
  · exact absurd full (by decide)
  · exact nomatch refused
  · exact out

theorem empty_not_mustFail (c : Registration) : ¬ empty.MustFail c := by
  rintro (⟨i, entry, -, here, -⟩ | full)
  · exact nomatch here
  · exact full 0 (by decide) rfl

theorem registry_kept_console :
    oneDevice.Unique ∧ oneDevice.LookupRight ∧
      (∀ typeOf, oneDevice.ListRight typeOf ↔ ∀ i, i < deviceMax → oneDevice.slots i = none) ∧
      ∀ c, oneDevice.RegisterRight c ↔ oneDevice.Meets c :=
  registry_kept (.register .empty
    ⟨by decide, fun must => absurd must (empty_not_mustFail consoleRegistration)⟩ register_console)

/-- A second registration of the same name and device succeeds. -/
theorem registered_twice :
    ¬ ∀ r, Reachable r → r.Unique ∧ r.LookupRight ∧ (∀ typeOf, r.ListRight typeOf) ∧
      ∀ c, r.RegisterRight c := by
  intro claim
  have right := (claim oneDevice (.register .empty register_console)).2.2.2 consoleRegistration
  have meets := (registerRight_iff (empty_filled.register register_console) _).mp right
  have refused := meets.2 (Or.inl ⟨1, ⟨[99], 4096⟩, by decide, rfl, Or.inl rfl⟩)
  exact nomatch refused.1

end Registry

end TrollOS
