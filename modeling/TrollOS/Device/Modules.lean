import Mathlib.Logic.Function.Basic

/-!
# Kernel modules

`kernel/module.c`: the table of the registered modules and the table of the loaded ones.
`module_load` compares the names through the pointer it has not found yet, so it follows
a null pointer as soon as any module is registered; such a call has the result `none`.
-/

namespace TrollOS

def modulesMax : Nat := 32

/-- A module, whose `init` is taken to succeed.  The module is known by its address. -/
structure Module where
  address : Nat
  name : List UInt8
  depends : Option (List (List UInt8))
  deriving DecidableEq, Repr

/-- `_module_registered`, `_module_loaded`, and the modules whose `init` has been called,
the last one first. -/
structure Modules where
  registered : Nat → Option Module
  loaded : Nat → Option Module
  initialised : List Module

namespace Modules

def empty : Modules := ⟨fun _ => none, fun _ => none, []⟩

/-- The loop of `module_register`, which keeps the last free spot; there is no result when
the name is taken. -/
def freeSpot (s : Modules) (name : List UInt8) : List Nat → Option Nat → Option (Option Nat)
  | [], spot => some spot
  | i :: rest, spot =>
      match s.registered i with
      | none => freeSpot s name rest (some i)
      | some other => if name = other.name then none else freeSpot s name rest spot

def register (s : Modules) (module : Option Module) : Int × Modules :=
  match module with
  | none => (-1, s)
  | some module =>
      match s.freeSpot module.name (List.range modulesMax) none with
      | some (some i) => (0, { s with registered := Function.update s.registered i (some module) })
      | some none => (-1, s)
      | none => (-1, s)

def isLoaded (s : Modules) (name : List UInt8) : Bool :=
  (List.range modulesMax).any fun i => (s.loaded i).any fun module => name = module.name

/-- The loop of `module_load` over the registered modules, with the local `module`. -/
def search (s : Modules) (module : Option Module) : List Nat → Option (Option Module)
  | [] => some module
  | i :: rest =>
      match s.registered i with
      | none => search s module rest
      | some other =>
          module.bind fun found =>
            if found.name = other.name then some (some other) else search s (some found) rest

def depends (module : Module) : List (List UInt8) := module.depends.getD []

def load (s : Modules) (name : Option (List UInt8)) : Option (Int × Modules) :=
  match name with
  | none => some (-1, s)
  | some name =>
      if s.isLoaded name then some (-1, s)
      else
        (s.search none (List.range modulesMax)).map fun module =>
          match module with
          | none => (-1, s)
          | some module =>
              if (depends module).any fun name => ! s.isLoaded name then (-1, s)
              else
                match (List.range modulesMax).find? fun i => (s.loaded i).isNone with
                | none => (-1, s)
                | some i =>
                    (0,
                      { s with
                        loaded := Function.update s.loaded i (some module)
                        initialised := module :: s.initialised })

/-! ## What the calls are for -/

def IsRegistered (s : Modules) (module : Module) : Prop :=
  ∃ i, i < modulesMax ∧ s.registered i = some module

def Distinct (table : Nat → Option Module) : Prop :=
  ∀ i j module other, i < modulesMax → j < modulesMax → table i = some module →
    table j = some other → module.name = other.name → i = j

def Closed (s : Modules) : Prop :=
  ∀ i module, i < modulesMax → s.loaded i = some module →
    ∀ name ∈ depends module, s.isLoaded name = true

/-- The name is new and there is room. -/
def CanRegister (s : Modules) (module : Module) : Prop :=
  (∀ other, s.IsRegistered other → module.name ≠ other.name) ∧
    ∃ i, i < modulesMax ∧ s.registered i = none

/-- A registration succeeds exactly when it can, fills one free spot, and fails without a
trace. -/
def RegisterRight (s : Modules) (module : Module) : Prop :=
  ∃ result after, s.register (some module) = (result, after) ∧ (result = 0 ↔ s.CanRegister module) ∧
    (result = 0 → ∃ i, i < modulesMax ∧ s.registered i = none ∧
      after = { s with registered := Function.update s.registered i (some module) }) ∧
    (result ≠ 0 → after = s)

/-- The module is registered and not loaded, what it depends on is, and there is room. -/
def CanLoad (s : Modules) (name : List UInt8) (module : Module) : Prop :=
  s.IsRegistered module ∧ module.name = name ∧ s.isLoaded name = false ∧
    (∀ name ∈ depends module, s.isLoaded name = true) ∧
      ∃ i, i < modulesMax ∧ s.loaded i = none

/-- A call of `module_load` returns, succeeds exactly when it can, marks as loaded and
initialises that module once, and fails without a trace. -/
def LoadRight (s : Modules) (name : List UInt8) : Prop :=
  ∃ result after, s.load (some name) = some (result, after) ∧
    (result = 0 ↔ ∃ module, s.CanLoad name module) ∧
    (result = 0 → ∃ module i, s.CanLoad name module ∧ i < modulesMax ∧ s.loaded i = none ∧
      after = { s with
        loaded := Function.update s.loaded i (some module)
        initialised := module :: s.initialised }) ∧
    (result ≠ 0 → after = s)

inductive Reachable : Modules → Prop where
  | empty : Reachable empty
  | register {s : Modules} (module : Option Module) :
      Reachable s → Reachable (s.register module).2
  | load {s after : Modules} {name : Option (List UInt8)} {result : Int} :
      Reachable s → s.load name = some (result, after) → Reachable after

def Bare (s : Modules) : Prop := ∀ i, i < modulesMax → s.registered i = none

section Register

variable {s : Modules} {name : List UInt8} {indices : List Nat} {spot : Option Nat}

/-- The loop gives up exactly at a taken name. -/
theorem freeSpot_none : s.freeSpot name indices spot = none ↔
    ∃ i ∈ indices, ∃ other, s.registered i = some other ∧ name = other.name := by
  induction indices generalizing spot with
  | nil =>
      refine iff_of_false (fun wrong => nomatch wrong) ?_
      rintro ⟨i, member, -⟩
      exact nomatch member
  | cons i rest ih =>
      unfold freeSpot
      cases here : s.registered i with
      | none =>
          refine ih.trans ⟨fun ⟨j, member, found⟩ => ⟨j, List.mem_cons_of_mem _ member, found⟩, ?_⟩
          rintro ⟨j, member, other, found, same⟩
          rcases List.mem_cons.mp member with rfl | later
          · exact nomatch here.symm.trans found
          · exact ⟨j, later, other, found, same⟩
      | some other =>
          dsimp only
          by_cases same : name = other.name
          · rw [if_pos same]
            exact iff_of_true rfl ⟨i, List.mem_cons_self, other, here, same⟩
          · rw [if_neg same]
            refine ih.trans ⟨fun ⟨j, member, found⟩ => ⟨j, List.mem_cons_of_mem _ member, found⟩, ?_⟩
            rintro ⟨j, member, another, found, same'⟩
            rcases List.mem_cons.mp member with rfl | later
            · obtain rfl := Option.some.inj (here.symm.trans found)
              exact absurd same' same
            · exact ⟨j, later, another, found, same'⟩

/-- A spot the loop ends with is one it started with, or a free one it has seen. -/
theorem freeSpot_some {found : Option Nat} (ran : s.freeSpot name indices spot = some found) :
    (found = spot ∧ ∀ i ∈ indices, s.registered i ≠ none) ∨
      ∃ i ∈ indices, s.registered i = none ∧ found = some i := by
  induction indices generalizing spot with
  | nil => exact Or.inl ⟨(Option.some.inj ran).symm, fun i member => nomatch member⟩
  | cons i rest ih =>
      unfold freeSpot at ran
      cases here : s.registered i with
      | none =>
          rw [here] at ran
          rcases ih ran with ⟨isSpot, -⟩ | ⟨j, member, free, isFound⟩
          · exact Or.inr ⟨i, List.mem_cons_self, here, isSpot⟩
          · exact Or.inr ⟨j, List.mem_cons_of_mem _ member, free, isFound⟩
      | some other =>
          rw [here] at ran
          dsimp only at ran
          split at ran
          · exact nomatch ran
          · rcases ih ran with ⟨isSpot, full⟩ | ⟨j, member, free, isFound⟩
            · refine Or.inl ⟨isSpot, fun j member => ?_⟩
              rcases List.mem_cons.mp member with rfl | later
              · rw [here]
                exact fun wrong => nomatch wrong
              · exact full j later
            · exact Or.inr ⟨j, List.mem_cons_of_mem _ member, free, isFound⟩

theorem taken_iff (s : Modules) (name : List UInt8) :
    (∃ i ∈ List.range modulesMax, ∃ other, s.registered i = some other ∧ name = other.name) ↔
      ∃ other, s.IsRegistered other ∧ name = other.name :=
  ⟨fun ⟨i, member, other, here, same⟩ => ⟨other, ⟨i, List.mem_range.mp member, here⟩, same⟩,
    fun ⟨other, ⟨i, small, here⟩, same⟩ => ⟨i, List.mem_range.mpr small, other, here, same⟩⟩

theorem register_cases (s : Modules) (module : Module) :
    (¬ s.CanRegister module ∧ s.register (some module) = (-1, s)) ∨
      ∃ i, i < modulesMax ∧ s.registered i = none ∧ s.CanRegister module ∧
        s.register (some module) =
          (0, { s with registered := Function.update s.registered i (some module) }) := by
  unfold register
  dsimp only
  cases ran : s.freeSpot module.name (List.range modulesMax) none with
  | none =>
      obtain ⟨other, isRegistered, same⟩ := (taken_iff s module.name).mp (freeSpot_none.mp ran)
      exact Or.inl ⟨fun can => can.1 other isRegistered same, rfl⟩
  | some found =>
      have fresh : ∀ other, s.IsRegistered other → module.name ≠ other.name := by
        intro other isRegistered same
        have gaveUp : s.freeSpot module.name (List.range modulesMax) none = none :=
          freeSpot_none.mpr ((taken_iff s module.name).mpr ⟨other, isRegistered, same⟩)
        exact nomatch ran.symm.trans gaveUp
      rcases freeSpot_some ran with ⟨rfl, full⟩ | ⟨i, member, free, rfl⟩
      · refine Or.inl ⟨?_, rfl⟩
        rintro ⟨-, i, small, free⟩
        exact full i (List.mem_range.mpr small) free
      · have small := List.mem_range.mp member
        exact Or.inr ⟨i, small, free, ⟨fresh, i, small, free⟩, rfl⟩

theorem registerRight (s : Modules) (module : Module) : s.RegisterRight module := by
  rcases register_cases s module with ⟨cannot, out⟩ | ⟨i, small, free, can, out⟩
  · refine ⟨_, _, out, iff_of_false (by decide) cannot, fun success => ?_, fun _ => rfl⟩
    exact absurd success (by decide)
  · exact ⟨_, _, out, iff_of_true rfl can, fun _ => ⟨i, small, free, rfl⟩,
      fun failed => absurd rfl failed⟩

/-- Filling a free spot under a new name keeps the names apart. -/
theorem Distinct.register {module : Module} {i : Nat} (distinct : Distinct s.registered)
    (can : s.CanRegister module) : Distinct (Function.update s.registered i (some module)) := by
  intro j k one other smallJ smallK atJ atK same
  by_cases newJ : j = i
  · by_cases newK : k = i
    · exact newJ.trans newK.symm
    · rw [newJ, Function.update_self] at atJ
      rw [Function.update_of_ne newK] at atK
      obtain rfl := Option.some.inj atJ
      exact absurd same (can.1 other ⟨k, smallK, atK⟩)
  · rw [Function.update_of_ne newJ] at atJ
    by_cases newK : k = i
    · rw [newK, Function.update_self] at atK
      obtain rfl := Option.some.inj atK
      exact absurd same.symm (can.1 one ⟨j, smallJ, atJ⟩)
    · rw [Function.update_of_ne newK] at atK
      exact distinct j k one other smallJ smallK atJ atK same

end Register

section Load

variable {s : Modules} {name : List UInt8}

/-- From a null pointer on, the first registered module is compared through it. -/
theorem search_null (s : Modules) (indices : List Nat) :
    s.search none indices = if ∀ i ∈ indices, s.registered i = none then some none else none := by
  induction indices with
  | nil => exact (if_pos fun i member => nomatch member).symm
  | cons i rest ih =>
      unfold search
      cases here : s.registered i with
      | none =>
          refine ih.trans (if_congr ?_ rfl rfl)
          rw [List.forall_mem_cons]
          exact ⟨fun free => ⟨here, free⟩, fun free => free.2⟩
      | some other =>
          refine (if_neg fun free => ?_).symm
          exact nomatch here.symm.trans (free i List.mem_cons_self)

theorem bare_iff (s : Modules) :
    (∀ i ∈ List.range modulesMax, s.registered i = none) ↔ s.Bare :=
  ⟨fun free i small => free i (List.mem_range.mpr small),
    fun bare i member => bare i (List.mem_range.mp member)⟩

/-- A call of `module_load` fails without a trace, or does not return. -/
theorem load_cases (s : Modules) (name : List UInt8) :
    ((s.isLoaded name = true ∨ s.Bare) ∧ s.load (some name) = some (-1, s)) ∨
      (s.isLoaded name = false ∧ ¬ s.Bare ∧ s.load (some name) = none) := by
  unfold load
  dsimp only
  cases already : s.isLoaded name with
  | true => exact Or.inl ⟨Or.inl rfl, if_pos rfl⟩
  | false =>
      rw [if_neg (by decide), search_null]
      by_cases bare : s.Bare
      · rw [if_pos ((bare_iff s).mpr bare)]
        exact Or.inl ⟨Or.inr bare, rfl⟩
      · rw [if_neg fun free => bare ((bare_iff s).mp free)]
        exact Or.inr ⟨rfl, bare, rfl⟩

theorem loadRight_iff (s : Modules) (name : List UInt8) :
    s.LoadRight name ↔ s.isLoaded name = true ∨ s.Bare := by
  rcases load_cases s name with ⟨meets, out⟩ | ⟨fresh, notBare, out⟩
  · refine iff_of_true ⟨_, _, out, iff_of_false (by decide) ?_, fun success => ?_, fun _ => rfl⟩ meets
    · rintro ⟨module, ⟨i, small, here⟩, -, fresh, -⟩
      rcases meets with already | bare
      · exact nomatch already.symm.trans fresh
      · exact nomatch here.symm.trans (bare i small)
    · exact absurd success (by decide)
  · refine iff_of_false ?_ ?_
    · rintro ⟨result, after, ran, -⟩
      exact nomatch out.symm.trans ran
    · rintro (already | bare)
      · exact nomatch fresh.symm.trans already
      · exact notBare bare

theorem load_keeps {name : Option (List UInt8)} {result : Int} {after : Modules}
    (ran : s.load name = some (result, after)) : after = s := by
  cases name with
  | none => exact (Prod.mk.inj (Option.some.inj ran)).2.symm
  | some name =>
      rcases load_cases s name with ⟨-, out⟩ | ⟨-, -, out⟩
      · exact (Prod.mk.inj (Option.some.inj (ran.symm.trans out))).2
      · exact nomatch ran.symm.trans out

end Load

/-- The names of the registered modules are distinct and nothing is loaded. -/
theorem Reachable.kept {s : Modules} (reach : Reachable s) :
    Distinct s.registered ∧ ∀ i, s.loaded i = none := by
  induction reach with
  | empty => exact ⟨fun i j module other _ _ here => (nomatch here), fun _ => rfl⟩
  | @register s module _ ih =>
      cases module with
      | none => exact ih
      | some module =>
          rcases register_cases s module with ⟨-, out⟩ | ⟨i, -, -, can, out⟩
          · rw [out]
            exact ih
          · rw [out]
            exact ⟨ih.1.register can, ih.2⟩
  | load _ ran ih =>
      rw [load_keeps ran]
      exact ih

/-- In every reachable state the names are distinct, the loaded modules are closed under
`depends` and without a double, and the next registration is right.  The next
`module_load` is right exactly as long as nothing is registered. -/
theorem modules_right {s : Modules} (reach : Reachable s) :
    Distinct s.registered ∧ Distinct s.loaded ∧ s.Closed ∧ (∀ module, s.RegisterRight module) ∧
      ∀ name, s.LoadRight name ↔ s.Bare := by
  obtain ⟨distinct, none⟩ := reach.kept
  refine ⟨distinct, fun i j module other _ _ here => ?_, fun i module _ here => ?_, registerRight s,
    fun name => (loadRight_iff s name).trans ⟨fun meets => ?_, Or.inr⟩⟩
  · exact nomatch (none i).symm.trans here
  · exact nomatch (none i).symm.trans here
  · refine meets.resolve_left fun already => ?_
    obtain ⟨i, -, loaded⟩ := List.any_eq_true.mp already
    rw [none i] at loaded
    exact nomatch loaded

def romfsModule : Module := ⟨4096, [114, 111, 109, 102, 115], none⟩

def oneModule : Modules := (empty.register (some romfsModule)).2

theorem modules_right_oneModule :
    Distinct oneModule.registered ∧ Distinct oneModule.loaded ∧ oneModule.Closed ∧
      (∀ module, oneModule.RegisterRight module) ∧ ∀ name, oneModule.LoadRight name ↔ oneModule.Bare :=
  modules_right (.register (some romfsModule) .empty)

theorem oneModule_not_bare : ¬ oneModule.Bare := fun bare => nomatch bare 31 (by decide)

/-- The one registered module is loaded: its name is compared through a null pointer. -/
theorem load_follows_null : ¬ ∀ s, Reachable s → ∀ name, s.LoadRight name := by
  intro claim
  have reach : Reachable oneModule := .register (some romfsModule) .empty
  have right := claim oneModule reach romfsModule.name
  rcases (loadRight_iff oneModule romfsModule.name).mp right with already | bare
  · exact absurd already (by decide)
  · exact oneModule_not_bare bare

end Modules

end TrollOS
