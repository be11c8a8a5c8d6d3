import Mathlib.Logic.Basic
import TrollOS.Vfs.Components

/-!
# Path resolution

What `_resolv_ino` is for, `resolve`: look the components up one after the
other and step onto a mounted file system wherever one is found.  The code
walks over the extracted pieces instead and leaves the last one uncrossed.
-/

namespace TrollOS.Vfs

open TrollOS.Lib

variable {ι : Type}

/-- Look up each component; on a mount point go on at the mounted root, for the last
component as for the others.  What is not the last must lead somewhere. -/
def resolveFrom (v : Vfs ι) : Place → List (List UInt8) → Outcome Place
  | at', [] => .value at'
  | at', [name] => (v.stat at' name).andThen fun s => .value (v.cross at' s)
  | at', name :: next :: more =>
      (v.stat at' name).andThen fun s =>
        if (v.isMountpoint s.dev s.ino).isSome || s.isDir then
          resolveFrom v (v.cross at' s) (next :: more)
        else .error (-enotdir)

def rootPlace (v : Vfs ι) (root : Nat) : Place := ⟨root, (v.mount root).mountedIno⟩

def resolve (v : Vfs ι) (root : Nat) (path : List UInt8) : Outcome Place :=
  v.resolveFrom (v.rootPlace root) (components path)

/-- The code's walk over what it extracts. -/
def walk (v : Vfs ι) : Place → List (List UInt8) → Outcome Place
  | at', [] => .value at'
  | at', [name] => (v.stat at' name).andThen fun s => .value ⟨at'.mount, s.ino⟩
  | at', name :: next :: more =>
      (v.enter at' name).andThen fun inner => walk v inner (next :: more)

def enterAll (v : Vfs ι) : Place → List (List UInt8) → Outcome Place
  | at', [] => .value at'
  | at', name :: more => (v.enter at' name).andThen fun inner => enterAll v inner more

/-- A lookup of the empty name finds the directory itself, and every mounted root is a
directory. -/
structure SelfNamed (v : Vfs ι) : Prop where
  found : ∀ at' name s, v.stat at' name = .value s → v.stat ⟨at'.mount, s.ino⟩ [] = .value s
  mounted : ∀ i, (v.mount i).isUsed = true →
    ∃ s, v.stat (v.rootPlace i) [] = .value s ∧ s.ino = (v.mount i).mountedIno ∧ s.isDir = true

/-- `at'` is a directory under its own inode. -/
def IsDirectory (v : Vfs ι) (at' : Place) : Prop :=
  ∃ s, v.stat at' [] = .value s ∧ s.ino = at'.dir ∧ s.isDir = true

/-- No directory that an empty piece looks up again on the way has a file system
mounted on it. -/
def NoReentry (v : Vfs ι) (at' : Place) (names : List (List UInt8)) : Prop :=
  ∀ before after, names = before ++ [] :: after → after ≠ [] →
    ∀ place s, v.enterAll at' (before.filter (· ≠ [])) = .value place →
      v.stat place [] = .value s → v.isMountpoint s.dev s.ino = none

/-- The node the last component finds: behind an empty last piece it must lead
somewhere, otherwise no other file system may be mounted on it. -/
def FinalRight (v : Vfs ι) (at' : Place) (names : List (List UInt8)) : Prop :=
  ∀ before name, names.filter (· ≠ []) = before ++ [name] →
    ∀ place s, v.enterAll at' before = .value place → v.stat place name = .value s →
      (names.getLast? = some [] → (v.isMountpoint s.dev s.ino).isSome || s.isDir) ∧
        (names.getLast? ≠ some [] → v.cross place s = ⟨place.mount, s.ino⟩)

theorem resolvLoop_eq (v : Vfs ι) (fuel : Nat) (at' : Place) (name rest : List UInt8)
    (enough : rest.length ≤ fuel) :
    v.resolvLoop fuel at' name rest = v.walk at' (name :: pieces fuel rest) := by
  induction fuel generalizing at' name rest with
  | zero =>
      have none : rest = [] := List.length_eq_zero_iff.mp (Nat.le_zero.mp enough)
      subst none
      rfl
  | succ fuel ih =>
      cases rest with
      | nil => rfl
      | cons char rest =>
          have more : char :: rest ≠ [] := List.cons_ne_nil char rest
          have left := drop_extract_le more enough
          simp only [resolvLoop, pieces, walk]
          congr 1
          funext inner
          exact ih inner _ _ left

/-- `_resolv_ino` on an absolute path is the walk over its pieces from inode 0. -/
theorem resolvIno_eq (v : Vfs ι) {root : Nat} (mounted : v.rootMount = some root)
    (tail : List UInt8) :
    v.resolvIno (slash :: tail) 0 = v.walk ⟨root, 0⟩ (allPieces tail) := by
  unfold resolvIno
  rw [if_neg (by decide)]
  dsimp only
  rw [if_neg (not_not_intro rfl), mounted]
  exact resolvLoop_eq v _ _ _ _ (afterFirst_length tail)

section Agreement

variable {v : Vfs ι} {at' : Place} {name : List UInt8} {s : Stat} {names : List (List UInt8)}

theorem isMountpoint_used {dev ino mp : Nat} (found : v.isMountpoint dev ino = some mp) :
    (v.mount mp).isUsed = true := by
  have holds := List.find?_some found
  rw [Bool.and_eq_true, Bool.and_eq_true] at holds
  exact holds.1.1

theorem cross_mounted {mp : Nat} (found : v.isMountpoint s.dev s.ino = some mp) :
    v.cross at' s = v.rootPlace mp := by
  unfold cross
  rw [found]
  rfl

theorem cross_plain (plain : v.isMountpoint s.dev s.ino = none) :
    v.cross at' s = ⟨at'.mount, s.ino⟩ := by
  unfold cross
  rw [plain]

theorem enter_found (looked : v.stat at' name = .value s)
    (leads : ((v.isMountpoint s.dev s.ino).isSome || s.isDir) = true) :
    v.enter at' name = .value (v.cross at' s) := by
  unfold enter
  rw [looked]
  exact if_pos leads

theorem enter_blocked (looked : v.stat at' name = .value s)
    (blocked : ¬ ((v.isMountpoint s.dev s.ino).isSome || s.isDir) = true) :
    v.enter at' name = .error (-enotdir) := by
  unfold enter
  rw [looked]
  exact if_neg blocked

/-- Wherever a lookup leads is a directory. -/
theorem SelfNamed.cross (self : v.SelfNamed) (looked : v.stat at' name = .value s)
    (leads : ((v.isMountpoint s.dev s.ino).isSome || s.isDir) = true) :
    v.IsDirectory (v.cross at' s) := by
  cases found : v.isMountpoint s.dev s.ino with
  | some mp =>
      obtain ⟨inner, there, ino, dir⟩ := self.mounted mp (isMountpoint_used found)
      rw [cross_mounted found]
      exact ⟨inner, there, ino, dir⟩
  | none =>
      rw [found, Option.isSome_none, Bool.false_or] at leads
      rw [cross_plain found]
      exact ⟨s, self.found at' name s looked, rfl, leads⟩

theorem enter_self (dir : v.IsDirectory at')
    (plain : ∀ s, v.stat at' [] = .value s → v.isMountpoint s.dev s.ino = none) :
    v.enter at' [] = .value at' := by
  obtain ⟨s, looked, ino, isDir⟩ := dir
  have here : v.cross at' s = at' := by
    rw [cross_plain (plain s looked), ino]
  rw [enter_found looked (by rw [isDir, Bool.or_true]), here]

theorem NoReentry.tail (clean : v.NoReentry at' (name :: names)) {inner : Place}
    (entered : name ≠ [] → v.enter at' name = .value inner)
    (stayed : name = [] → inner = at') : v.NoReentry inner names := by
  intro before after parts more place s reached looked
  apply clean (name :: before) after (by rw [parts]; rfl) more place s _ looked
  by_cases empty : name = []
  · rw [List.filter_cons_of_neg (by simp [empty])]
    rw [stayed empty] at reached
    exact reached
  · rw [List.filter_cons_of_pos (by simp [empty])]
    unfold enterAll
    rw [entered empty]
    exact reached

theorem FinalRight.of_cons_empty (more : names ≠ []) :
    v.FinalRight at' ([] :: names) ↔ v.FinalRight at' names := by
  have last : ([] :: names).getLast? = names.getLast? := List.getLast?_cons_of_ne_nil more
  unfold FinalRight
  rw [last]
  rfl

/-- Behind a name that leads on, the last component is that of the rest. -/
theorem FinalRight.of_cons {inner : Place} (nonempty : name ≠ [])
    (entered : v.enter at' name = .value inner)
    (more : names.filter (· ≠ []) ≠ []) :
    v.FinalRight at' (name :: names) ↔ v.FinalRight inner names := by
  have others : names ≠ [] := fun none => more (by rw [none]; rfl)
  have last : (name :: names).getLast? = names.getLast? := List.getLast?_cons_of_ne_nil others
  have kept : (name :: names).filter (· ≠ []) = name :: names.filter (· ≠ []) :=
    List.filter_cons_of_pos (by simp [nonempty])
  unfold FinalRight
  rw [last, kept]
  constructor
  · intro right before final parts place s reached looked
    apply right (name :: before) final (by rw [parts]; rfl) place s _ looked
    unfold enterAll
    rw [entered]
    exact reached
  · intro right before final parts place s reached looked
    cases before with
    | nil => exact absurd (List.cons.inj parts).2 more
    | cons first before =>
        obtain ⟨rfl, others⟩ := List.cons.inj parts
        unfold enterAll at reached
        rw [entered] at reached
        exact right before final others place s reached looked

theorem FinalRight.of_stuck (nonempty : name ≠ []) (more : names.filter (· ≠ []) ≠ [])
    (stuck : ∀ inner, v.enter at' name ≠ .value inner) : v.FinalRight at' (name :: names) := by
  intro before final parts place s reached
  rw [List.filter_cons_of_pos (by simp [nonempty])] at parts
  cases before with
  | nil => exact absurd (List.cons.inj parts).2 more
  | cons first before =>
      obtain ⟨rfl, -⟩ := List.cons.inj parts
      obtain ⟨inner, entered, -⟩ := Outcome.andThen_eq_value reached
      exact absurd entered (stuck inner)

/-- The last component, with `names` the empty pieces behind it. -/
theorem FinalRight.of_last (nonempty : name ≠ []) (empty : names.filter (· ≠ []) = []) :
    v.FinalRight at' (name :: names) ↔
      ∀ s, v.stat at' name = .value s →
        ((name :: names).getLast? = some [] →
          (v.isMountpoint s.dev s.ino).isSome || s.isDir) ∧
        ((name :: names).getLast? ≠ some [] → v.cross at' s = ⟨at'.mount, s.ino⟩) := by
  have kept : (name :: names).filter (· ≠ []) = [name] := by
    rw [List.filter_cons_of_pos (by simp [nonempty]), empty]
  unfold FinalRight
  rw [kept]
  constructor
  · intro right s looked
    exact right [] name rfl at' s rfl looked
  · intro right before final parts place s reached looked
    cases before with
    | nil =>
        obtain ⟨rfl, -⟩ := List.cons.inj parts
        cases reached
        exact right s looked
    | cons first before =>
        have none := (List.cons.inj parts).2
        cases before with
        | nil => exact nomatch none
        | cons => exact nomatch none

theorem resolveFrom_cons (more : names ≠ []) :
    v.resolveFrom at' (name :: names) =
      (v.enter at' name).andThen fun inner => v.resolveFrom inner names := by
  cases names with
  | nil => exact absurd rfl more
  | cons next names =>
      simp only [resolveFrom, enter]
      rw [Outcome.andThen_assoc]
      congr 1
      funext s
      split
      · rfl
      · rfl

theorem walk_cons (more : names ≠ []) :
    v.walk at' (name :: names) =
      (v.enter at' name).andThen fun inner => v.walk inner names := by
  cases names with
  | nil => exact absurd rfl more
  | cons next names => rfl

theorem enter_cases (at' : Place) (name : List UInt8) :
    (∃ s, v.stat at' name = .value s ∧
        ((v.isMountpoint s.dev s.ino).isSome || s.isDir) = true ∧
        v.enter at' name = .value (v.cross at' s)) ∨
      (∃ s, v.stat at' name = .value s ∧
        ¬ ((v.isMountpoint s.dev s.ino).isSome || s.isDir) = true ∧
        v.enter at' name = .error (-enotdir)) ∨
      ((∀ s, v.stat at' name ≠ .value s) ∧
        v.enter at' name = (v.stat at' name).andThen fun s => .value (v.cross at' s)) := by
  cases looked : v.stat at' name with
  | value s =>
      by_cases leads : ((v.isMountpoint s.dev s.ino).isSome || s.isDir) = true
      · exact Or.inl ⟨s, rfl, leads, enter_found looked leads⟩
      · exact Or.inr (Or.inl ⟨s, rfl, leads, enter_blocked looked leads⟩)
  | error errno =>
      refine Or.inr (Or.inr ⟨fun _ same => (nomatch same), ?_⟩)
      unfold enter
      rw [looked]
      rfl
  | hang =>
      refine Or.inr (Or.inr ⟨fun _ same => (nomatch same), ?_⟩)
      unfold enter
      rw [looked]
      rfl

/-- The only piece of a name: it is looked up and never crossed. -/
theorem walk_last (dir : v.IsDirectory at') :
    v.walk at' [name] = v.resolveFrom at' ([name].filter (· ≠ [])) ↔
      v.FinalRight at' [name] := by
  by_cases nonempty : name = []
  · subst nonempty
    obtain ⟨s, looked, ino, -⟩ := dir
    constructor
    · intro _ before final parts
      cases before with
      | nil => exact nomatch parts
      | cons => exact nomatch parts
    · intro _
      unfold walk
      rw [looked, Outcome.andThen_value, ino]
      rfl
  · rw [FinalRight.of_last nonempty rfl, List.filter_cons_of_pos (by simp [nonempty])]
    have last : [name].getLast? ≠ some [] := fun same => nonempty (Option.some.inj same)
    change (v.stat at' name).andThen _ = (v.stat at' name).andThen _ ↔ _
    cases looked : v.stat at' name with
    | value s =>
        constructor
        · intro same s' there
          cases there
          exact ⟨fun empty => absurd empty last, fun _ => (Outcome.value.inj same).symm⟩
        · intro right
          exact congrArg Outcome.value ((right s rfl).2 last).symm
    | error errno => exact ⟨fun _ s there => (nomatch there), fun _ => rfl⟩
    | hang => exact ⟨fun _ s there => (nomatch there), fun _ => rfl⟩

/-- The last component followed by empty pieces. -/
theorem walk_trailing (nonempty : name ≠ []) (empty : names.filter (· ≠ []) = [])
    (more : names ≠ []) (rest : ∀ inner, v.enter at' name = .value inner →
      v.walk inner names = .value inner) :
    v.walk at' (name :: names) = v.resolveFrom at' [name] ↔
      v.FinalRight at' (name :: names) := by
  have last : (name :: names).getLast? = some [] := by
    rw [List.getLast?_cons_of_ne_nil more, List.getLast?_eq_some_getLast more]
    have member := List.getLast_mem more
    have none := List.filter_eq_nil_iff.mp empty _ member
    exact congrArg some (not_not.mp fun other => none (decide_eq_true other))
  rw [FinalRight.of_last nonempty empty, walk_cons more]
  change _ = (v.stat at' name).andThen _ ↔ _
  rcases v.enter_cases at' name with ⟨s, looked, leads, entered⟩ | ⟨s, looked, blocked, entered⟩ |
    ⟨missing, entered⟩
  · rw [entered, looked, Outcome.andThen_value, Outcome.andThen_value, rest _ entered]
    constructor
    · intro _ s' there
      cases there
      exact ⟨fun _ => leads, fun other => absurd last other⟩
    · intro _
      rfl
  · rw [entered, looked]
    constructor
    · intro same
      exact nomatch same
    · intro right
      exact absurd ((right s rfl).1 last) blocked
  · rw [entered]
    cases looked : v.stat at' name with
    | value s => exact absurd looked (missing s)
    | error errno => exact ⟨fun _ s there => (nomatch there), fun _ => rfl⟩
    | hang => exact ⟨fun _ s there => (nomatch there), fun _ => rfl⟩

/-- Walk and reference agree exactly when the last component is treated rightly, as
long as no empty piece crosses a mount a second time. -/
theorem walk_agrees (self : v.SelfNamed) (some : names ≠ []) (dir : v.IsDirectory at')
    (clean : v.NoReentry at' names) :
    v.walk at' names = v.resolveFrom at' (names.filter (· ≠ [])) ↔ v.FinalRight at' names := by
  induction names generalizing at' with
  | nil => exact absurd rfl some
  | cons name names ih =>
      by_cases more : names = []
      · subst more
        exact walk_last dir
      by_cases nonempty : name = []
      · subst nonempty
        have stays : v.enter at' [] = .value at' :=
          enter_self dir fun s looked => clean [] names rfl more at' s rfl looked
        rw [walk_cons more, stays, FinalRight.of_cons_empty more]
        exact ih more dir (clean.tail (fun other => absurd rfl other) fun _ => rfl)
      have inside : ∀ inner, v.enter at' name = .value inner →
          (v.walk inner names = v.resolveFrom inner (names.filter (· ≠ [])) ↔
            v.FinalRight inner names) := by
        intro inner entered
        rcases v.enter_cases at' name with ⟨s, looked, leads, there⟩ | ⟨s, -, -, there⟩ |
          ⟨missing, there⟩
        · obtain rfl := Outcome.value.inj (entered.symm.trans there)
          exact ih more (self.cross looked leads)
            (clean.tail (fun _ => entered) fun empty => absurd empty nonempty)
        · exact nomatch entered.symm.trans there
        · obtain ⟨s, looked, -⟩ := Outcome.andThen_eq_value (there.symm.trans entered)
          exact absurd looked (missing s)
      by_cases empty : names.filter (· ≠ []) = []
      · rw [List.filter_cons_of_pos (by simp [nonempty]), empty]
        apply walk_trailing nonempty empty more
        intro inner entered
        have none : v.FinalRight inner names := by
          intro before final parts
          rw [empty] at parts
          exact absurd parts.symm (List.append_ne_nil_of_right_ne_nil _ (List.cons_ne_nil _ _))
        rw [(inside inner entered).mpr none, empty]
        rfl
      · rw [List.filter_cons_of_pos (by simp [nonempty]), walk_cons more, resolveFrom_cons empty]
        cases entered : v.enter at' name with
        | value inner =>
            rw [FinalRight.of_cons nonempty entered empty]
            exact inside inner entered
        | error errno =>
            exact ⟨fun _ => FinalRight.of_stuck nonempty empty fun inner same =>
              (nomatch entered.symm.trans same), fun _ => rfl⟩
        | hang =>
            exact ⟨fun _ => FinalRight.of_stuck nonempty empty fun inner same =>
              (nomatch entered.symm.trans same), fun _ => rfl⟩

end Agreement

/-- The walk starts where the reference does, and never crosses a mount twice. -/
def Clean (v : Vfs ι) (root : Nat) (tail : List UInt8) : Prop :=
  (v.mount root).mountedIno = 0 ∧ v.NoReentry (v.rootPlace root) (allPieces tail)

/-- On a clean path the code agrees with the reference exactly when it treats the last
component rightly. -/
theorem resolvIno_agrees (v : Vfs ι) (self : v.SelfNamed) (root : Nat)
    (mounted : v.rootMount = some root) (tail : List UInt8) (short : ShortNames (slash :: tail)) :
    v.Clean root tail →
      (v.resolvIno (slash :: tail) 0 = v.resolve root (slash :: tail) ↔
        v.FinalRight (v.rootPlace root) (allPieces tail)) := by
  intro clean
  have start : (⟨root, 0⟩ : Place) = v.rootPlace root := by
    unfold rootPlace
    rw [clean.1]
  rw [resolvIno_eq v mounted, start]
  unfold resolve
  rw [← allPieces_components short]
  exact walk_agrees self (List.cons_ne_nil _ _) (self.mounted root (isMountpoint_used mounted))
    clean.2

def directoryStat (dev ino : Nat) : Stat :=
  ⟨dev, ino, sIfdir, 1, 0, 0, 0, 0, 512, 0, 0⟩

/-- A driver in which every inode is a directory and only the first instance has an
entry: `a`, inode 5, in its root. -/
def oneEntry : FSType Unit where
  used := true
  name := "one"
  mount _ _ := ((), .value (0, 0))
  stat _ instance' dir name :=
    if name = [] then .value (directoryStat (instance' + 1) dir)
    else if instance' = 0 ∧ dir = 0 ∧ name = [97] then .value (directoryStat 1 5)
    else .error (-enoent)
  statInode _ instance' ino := .value (directoryStat (instance' + 1) ino)
  read _ _ _ _ _ := .value (0, [])
  readDirectory _ _ _ _ := .value none

def twoMounts : Vfs Unit where
  fsType _ := oneEntry
  mount i :=
    if i = 0 then ⟨true, 1, allOnes, allOnes, 0, 0, 1, 0⟩ else ⟨i == 1, 0, 1, 5, 0, i, 2, 0⟩
  file _ := ⟨false, false, false, false, false, false, 0, 0, 0, 0, 0⟩
  world := ⟨fun _ => none, ()⟩

theorem twoMounts_instance (i : Nat) : (twoMounts.mount i).mountedInstance = i := by
  by_cases first : i = 0
  · subst first
    rfl
  · unfold twoMounts
    dsimp only
    rw [if_neg first]

theorem twoMounts_stat (at' : Place) (name : List UInt8) :
    twoMounts.stat at' name = oneEntry.stat twoMounts.world at'.mount at'.dir name := by
  unfold stat
  rw [twoMounts_instance]
  rfl

theorem twoMounts_selfNamed : twoMounts.SelfNamed := by
  constructor
  · intro at' name s looked
    rw [twoMounts_stat] at looked ⊢
    change (if name = [] then _ else _) = _ at looked
    split at looked
    · cases looked
      rfl
    · split at looked
      · rename_i named
        cases looked
        rw [named.1]
        rfl
      · exact nomatch looked
  · intro i _
    rw [twoMounts_stat]
    exact ⟨_, rfl, rfl, (by decide : (sIfdir &&& sIfmt == sIfdir) = true)⟩

theorem resolvIno_agrees_twoMounts :
    twoMounts.resolvIno [slash, 97, slash, 98] 0 =
      twoMounts.resolve 0 [slash, 97, slash, 98] := by
  have short : ShortNames [slash, 97, slash, 98] := by
    unfold ShortNames
    decide
  have clean : twoMounts.Clean 0 [97, slash, 98] := by
    refine ⟨rfl, fun before after parts => ?_⟩
    have plain : ([] : List UInt8) ∉ allPieces [97, slash, 98] := by decide
    exact absurd (parts ▸ List.mem_append_right _ List.mem_cons_self) plain
  refine (resolvIno_agrees twoMounts twoMounts_selfNamed 0 (by decide) [97, slash, 98] short
    clean).mpr ?_
  intro before name parts place s reached looked
  have names : before = [[97]] ∧ name = [98] := by
    have parts' : [[97]] ++ [[98]] = before ++ [name] := parts
    obtain ⟨first, last⟩ := List.append_inj' parts' rfl
    exact ⟨first.symm, (List.cons.inj last).1.symm⟩
  rw [names.1] at reached
  have there : place = ⟨1, 0⟩ := by
    have enters : twoMounts.enterAll (twoMounts.rootPlace 0) [[97]] = .value ⟨1, 0⟩ := by decide
    exact Outcome.value.inj (reached.symm.trans enters)
  rw [there, names.2] at looked
  exact nomatch looked

/-- `/a` names the directory below the mount, not the root mounted on it. -/
theorem mount_not_crossed :
    ¬ ∀ (ι : Type) (v : Vfs ι) (root : Nat), v.SelfNamed → v.rootMount = some root →
      ∀ tail, ShortNames (slash :: tail) →
        v.resolvIno (slash :: tail) 0 = v.resolve root (slash :: tail) := by
  intro claim
  have short : ShortNames [slash, 97] := by
    unfold ShortNames
    decide
  have same := claim Unit twoMounts 0 twoMounts_selfNamed (by decide) [97] short
  exact absurd same (by decide)

end TrollOS.Vfs
