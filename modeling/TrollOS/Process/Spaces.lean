import TrollOS.Process.Forking

/-!
# Address spaces are freed once

Runs of `process_create`, `process_exit`, `process_wait` and `scheduler`, with pages put
into the spaces in between, over the frames themselves.  The first end of a process puts
its whole tree on the free list and nothing else puts anything there, as long as no zombie
is ended again, woken or chosen as the next process, and the root pointer register has
left the space of a process before it ends.
-/

namespace TrollOS.Process

open Mmu

namespace Spawner

inductive Call (s : Spawner) where
  | create (uid gid : Int) (memory : s.NewRecord)
  | exit (pid value : Int)
  | wait (pid : Int) (callback : Option { block // block ∉ s.heap })
  | schedule
  | page (virt : Nat) (writeProtected : Bool)

def schedule (s : Spawner) : Option Spawner :=
  s.kernel.scheduler.bind fun (_, k) =>
    (s.spaces.serve (.switchUserspace k.urp)).map fun u => { s with kernel := k, spaces := u }

def exec (s : Spawner) : s.Call → Option (Int × Spawner)
  | .create uid gid memory => s.create uid gid memory
  | .exit pid value => (s.exit pid value).map fun s' => (0, s')
  | .wait pid callback => s.wait pid callback
  | .schedule => s.schedule.map fun s' => (0, s')
  | .page virt writeProtected =>
      (s.spaces.serve (.allocAt virt writeProtected)).map fun u => (0, { s with spaces := u })

/-! ## What a call should do -/

def tree (s : Spawner) (p : Process) : List Nat :=
  Frames.tree s.spaces.mmu.mem (rootLevelFieldAddr p.userspace)

/-- What a call should put on the free list: the tree of a process that ends for the first
time, and nothing else. -/
def given (s : Spawner) : s.Call → List Nat
  | .exit pid _ =>
      match s.kernel.processFromPid pid with
      | some p => if p.state = .zombie then [] else s.tree p
      | none => []
  | _ => []

/-- The calls that may take frames. -/
def Call.Takes {s : Spawner} : s.Call → Prop
  | .create _ _ _ => True
  | .page _ _ => True
  | _ => False

/-- The root pointer register holds the root of a process that has not ended. -/
def Active (s : Spawner) : Prop :=
  ∃ slot p, s.kernel.process slot = some p ∧ p.state ≠ .zombie ∧ p.userspace = s.spaces.mmu.urp

/-- What a call does: to the free list, to the process that ends or is waited for, to the
other zombies, and to the root pointer register. -/
structure CallRight (s : Spawner) (call : s.Call) (r : Int) (s' : Spawner) : Prop where
  frames : ∃ chain chain' took, Frames.Pool s.spaces.mmu.frames chain ∧
    Frames.Pool s'.spaces.mmu.frames chain' ∧ (took ++ chain').Perm (s.given call ++ chain) ∧
      (took ≠ [] → call.Takes)
  ended : ∀ pid value p, call = .exit pid value → s.kernel.processFromPid pid = some p →
    p.state ≠ .zombie → ∃ z, s'.kernel.process pid.toNat = some z ∧ z.state = .zombie ∧
      z.returnValue = value
  waited : ∀ pid callback z, call = .wait pid callback → s.kernel.processFromPid pid = some z →
    z.state = .zombie → r = z.returnValue ∧ s'.kernel.process pid.toNat = none
  kept : ∀ slot z, s.kernel.process slot = some z → z.state = .zombie →
    (∀ pid callback, call = .wait pid callback → pid.toNat ≠ slot) →
      ∃ z', s'.kernel.process slot = some z' ∧ Alike z z'
  active : (∃ slot p, s'.kernel.process slot = some p) → s'.Active

/-- The condition.  A process that has memory for its record gets a frame for its root
table.  What ends is no zombie and wakes none; its space is not in the root pointer
register, or it is the current process and another one that lives follows it.  The
scheduler's search ends at a process that lives.  Pages are put into the space of some
process while there are frames. -/
def CallMeets (s : Spawner) : s.Call → Prop
  | .create _ _ memory => s.CreateMeets memory
  | .exit pid _ => ∀ p, s.kernel.processFromPid pid = some p → s.ExitMeets pid.toNat p ∧
      (s.kernel.current = pid.toNat ∨ s.spaces.mmu.urp ≠ p.userspace)
  | .wait _ _ => True
  | .schedule => ∀ next p, s.kernel.process.schedulerSearch s.kernel.current = some next →
      s.kernel.process next = some p → p.state ≠ .zombie
  | .page virt _ => (∃ slot p, s.kernel.process slot = some p) ∧
      Supplied s.spaces.mmu s.spaces.mmu.urp virt

end Spawner

namespace Spaces

open Spawner

/-- A call in a run, with the states around it. -/
structure Step where
  before : Spawner
  call : before.Call
  answer : Int
  after : Spawner

/-- Runs from a table without processes, all of whose calls satisfy `ok`, the latest call
first. -/
inductive Run (ok : (s : Spawner) → s.Call → Prop) (frames : List Nat) : List Step → Spawner → Prop
  | boot {s : Spawner} : s.spaces.Owned frames → (∀ slot, s.kernel.process slot = none) →
      Run ok frames [] s
  | call {steps : List Step} {s s' : Spawner} {call : s.Call} {r : Int} : Run ok frames steps s →
      ok s call → s.exec call = some (r, s') → Run ok frames (⟨s, call, r, s'⟩ :: steps) s'

/-- The step is the end of a process that lived. -/
def Step.Ends (e : Step) (pid value : Int) : Prop :=
  e.call = .exit pid value ∧ ∃ p, e.before.kernel.processFromPid pid = some p ∧ p.state ≠ .zombie

def Step.Waits (e : Step) (pid : Int) : Prop := ∃ callback, e.call = .wait pid callback

/-- The claimed behaviour.  Every frame has one role, every call does what it should, and
the value of a process that has ended stays in its slot until somebody waits for it. -/
structure FreedOnce (frames : List Nat) (steps : List Step) (s : Spawner) : Prop where
  owned : s.spaces.Owned frames
  right : ∀ e ∈ steps, e.before.CallRight e.call e.answer e.after
  uncollected : ∀ later e older pid value, steps = later ++ e :: older → e.Ends pid value →
    (∀ e' ∈ later, ∀ pid', e'.Waits pid' → pid'.toNat ≠ pid.toNat) →
      ∃ z, s.kernel.process pid.toNat = some z ∧ z.state = .zombie ∧ z.returnValue = value

end Spaces

namespace Spawner

section Calls

variable {frames : List Nat} {s s' : Spawner} {pid r : Int} {p : Process} {u : UserSpaces}

/-- The root pointer register follows the processes. -/
def Followed (s : Spawner) : Prop := (∃ slot p, s.kernel.process slot = some p) → s.Active

/-- A call that touches no frame. -/
theorem frames_same {call : s.Call} (sound : Sound frames s) (same : s'.spaces.mmu.frames = s.spaces.mmu.frames)
    (none : s.given call = []) :
    ∃ chain chain' took, Frames.Pool s.spaces.mmu.frames chain ∧
      Frames.Pool s'.spaces.mmu.frames chain' ∧ (took ++ chain').Perm (s.given call ++ chain) ∧
        (took ≠ [] → call.Takes) := by
  obtain ⟨chain, roles⟩ := sound.owned.roles
  refine ⟨chain, chain, [], roles.pool, same ▸ roles.pool, ?_, fun some' => absurd rfl some'⟩
  rw [none]

theorem Active.similar (active : s.Active) (similar : Similar s.kernel.process s'.kernel.process)
    (same : s'.spaces.mmu.urp = s.spaces.mmu.urp) : s'.Active := by
  obtain ⟨slot, p, here, alive, root⟩ := active
  obtain ⟨q, isNow, alike⟩ := similar.forth here
  exact ⟨slot, q, isNow, mt alike.life.mp alive, alike.space.trans (root.trans same.symm)⟩

/-- A call after which every process is as it was. -/
theorem right_similar {call : s.Call} (followed : s.Followed)
    (similar : Similar s.kernel.process s'.kernel.process)
    (same : s'.spaces.mmu.urp = s.spaces.mmu.urp ∨ s'.Active)
    (work : ∃ chain chain' took, Frames.Pool s.spaces.mmu.frames chain ∧
      Frames.Pool s'.spaces.mmu.frames chain' ∧ (took ++ chain').Perm (s.given call ++ chain) ∧
        (took ≠ [] → call.Takes))
    (noEnd : ∀ pid value p, call = .exit pid value → s.kernel.processFromPid pid = some p →
      p.state = .zombie)
    (noWait : ∀ pid callback z, call = .wait pid callback → s.kernel.processFromPid pid = some z →
      z.state ≠ .zombie) : s.CallRight call r s' := by
  constructor
  · exact work
  · exact fun pid value p isExit found alive => absurd (noEnd pid value p isExit found) alive
  · exact fun pid callback z isWait found dead => absurd dead (noWait pid callback z isWait found)
  · exact fun slot z here _ _ => similar.forth here
  · rintro ⟨slot, q, here⟩
    rcases same with same | active
    · obtain ⟨p, was, -⟩ := similar.back here
      exact (followed ⟨slot, p, was⟩).similar similar same
    · exact active

theorem create_right (sound : Sound frames s) (followed : s.Followed) {uid gid : Int}
    {memory : s.NewRecord} (meets : s.CreateMeets memory)
    (ran : s.create uid gid memory = some (r, s')) : s.CallRight (.create uid gid memory) r s' := by
  rcases create_cases ran with ⟨-, last, rfl⟩ | ⟨last, pid, block, old, u, isNew, -, search, served, rfl⟩
  · refine right_similar followed (Similar.refl _) (Or.inl rfl) (frames_same sound rfl rfl) ?_ ?_
    · exact fun _ _ _ isExit => nomatch isExit
    · exact fun _ _ _ isWait => nomatch isWait
  · obtain ⟨small, free⟩ := Kernel.slotSearch_free _ search
    have notFull : ¬ s.kernel.process.Full := fun full => by
      have occupied := full pid small
      rw [free] at occupied
      exact nomatch occupied
    have left := meets (by rw [isNew]; rfl) notFull
    obtain ⟨chain, roles⟩ := sound.owned.roles
    obtain ⟨f, rest, got, valid, roles', -, moved⟩ := roles.alloc left
    obtain ⟨m, inits, same, -, urp, -⟩ := initUserspace_some sound.owned.mapping got valid
    obtain rfl := Option.some.inj ((UserSpaces.serve_initUserspace_some inits).symm.trans served)
    have handle := rootFrame_handle left s.kernel.urp
    obtain ⟨isFirst, -⟩ := UserSpaces.alloc_first left got
    constructor
    · refine ⟨chain, rest, [f], roles.pool, same ▸ roles'.pool, ?_, fun _ => trivial⟩
      exact (List.perm_append_singleton f rest).symm.trans moved.perm
    · exact fun _ _ _ isExit => nomatch isExit
    · exact fun _ _ _ isWait => nomatch isWait
    · intro slot z here _ _
      have other : slot ≠ pid := fun isPid => by
        rw [isPid, free] at here
        exact nomatch here
      refine ⟨z, ?_, Alike.refl z⟩
      dsimp only
      rw [Function.update_of_ne other]
      exact here
    · intro _
      refine ⟨pid, _, Function.update_self .., fun wrong => (nomatch wrong), ?_⟩
      refine handle.trans ?_
      rw [urp, isFirst]
      rfl

theorem exit_right (sound : Sound frames s) (followed : s.Followed) {value : Int}
    (meets : s.CallMeets (.exit pid value)) (ran : s.exit pid value = some s') :
    s.CallRight (.exit pid value) r s' := by
  cases found : s.kernel.processFromPid pid with
  | none =>
      have nothing : s.given (.exit pid value) = [] := by
        unfold given
        dsimp only
        rw [found]
      obtain ⟨k, exits, rest⟩ := Option.bind_eq_some_iff.mp ran
      rw [found] at rest
      obtain rfl := Option.some.inj rest
      have same : k = s.kernel := by
        rcases processExit_cases exits with ⟨-, same⟩ | ⟨p, t, kept, k₁, isP, -⟩
        · exact same
        · exact nomatch found.symm.trans isP
      subst same
      refine right_similar followed (Similar.refl _) (Or.inl rfl) (frames_same sound rfl nothing) ?_ ?_
      · intro pid' value' p isExit isP
        obtain ⟨rfl, rfl⟩ := Call.exit.inj isExit
        exact nomatch found.symm.trans isP
      · exact fun _ _ _ isWait => nomatch isWait
  | some p =>
      obtain ⟨exitMeets, left⟩ := meets p found
      obtain ⟨inside, here⟩ := processFromPid_some found
      have isNat : pid = (pid.toNat : Int) := by omega
      rw [isNat] at found ran
      have exited := sound.exited found exitMeets ran
      rw [← isNat] at found
      obtain ⟨alive, -⟩ := exitMeets
      constructor
      · obtain ⟨chain, chain', pool, pool', perm⟩ := exited.given
        refine ⟨chain, chain', [], pool, pool', ?_, fun some' => absurd rfl some'⟩
        have tree : s.given (.exit pid value) = s.tree p := by
          unfold given
          dsimp only
          rw [found]
          exact if_neg alive
        rw [tree]
        exact perm
      · intro pid' value' q isExit _ _
        obtain ⟨rfl, rfl⟩ := Call.exit.inj isExit
        exact exited.ended
      · exact fun _ _ _ isWait => nomatch isWait
      · intro slot z isZ dead _
        refine exited.others slot z (fun same => ?_) isZ
        rw [same, here] at isZ
        rw [← Option.some.inj isZ] at dead
        exact alive dead
      · intro _
        rcases exited.root with ⟨own, same⟩ | ⟨next, q, other, there, living, root⟩
        · obtain ⟨slot, q, isQ, living, root⟩ := followed ⟨_, p, here⟩
          have other : slot ≠ pid.toNat := fun isPid => by
            rw [isPid, here] at isQ
            rw [← Option.some.inj isQ] at root
            exact (left.resolve_left own) root.symm
          obtain ⟨q', isNow, alike⟩ := exited.others slot q other isQ
          exact ⟨slot, q', isNow, mt alike.life.mp living, alike.space.trans (root.trans same.symm)⟩
        · obtain ⟨q', isNow, alike⟩ := exited.others next q other there
          exact ⟨next, q', isNow, mt alike.life.mp living, alike.space.trans root.symm⟩

theorem wait_right (sound : Sound frames s) (followed : s.Followed)
    {callback : Option { block // block ∉ s.heap }} (ran : s.wait pid callback = some (r, s')) :
    s.CallRight (.wait pid callback) r s' := by
  obtain ⟨waits, spaces⟩ := wait_kernel ran
  have work := @frames_same frames s s' (.wait pid callback) sound (by rw [spaces]) rfl
  obtain ⟨current, ⟨z, found, dead, isValue, table⟩ | ⟨living, similar⟩⟩ :=
    processWait_table sound.current waits
  · obtain ⟨inside, here⟩ := processFromPid_some found
    have others : ∀ slot q, slot ≠ pid.toNat → s.kernel.process slot = some q →
        s'.kernel.process slot = some q := by
      intro slot q other isQ
      rw [table, Function.update_of_ne other]
      exact isQ
    constructor
    · exact work
    · exact fun _ _ _ isExit => nomatch isExit
    · intro pid' callback' z' isWait isZ _
      obtain ⟨rfl, -⟩ := Call.wait.inj isWait
      obtain rfl := Option.some.inj (found.symm.trans isZ)
      exact ⟨isValue, by rw [table, Function.update_self]⟩
    · intro slot q isQ _ notHere
      exact ⟨q, others slot q (notHere pid callback rfl).symm isQ, Alike.refl q⟩
    · intro _
      obtain ⟨slot, q, isQ, alive, root⟩ := followed ⟨_, z, here⟩
      have other : slot ≠ pid.toNat := fun isPid => by
        rw [isPid, here] at isQ
        rw [← Option.some.inj isQ] at alive
        exact alive dead
      exact ⟨slot, q, others slot q other isQ, alive, by rw [spaces]; exact root⟩
  · refine right_similar followed similar (Or.inl (by rw [spaces])) work ?_ ?_
    · exact fun _ _ _ isExit => nomatch isExit
    · intro pid' callback' z isWait isZ
      obtain ⟨rfl, -⟩ := Call.wait.inj isWait
      exact living z isZ

/-- The scheduler makes the space of a living process current. -/
theorem schedule_cases (ran : s.schedule = some s') :
    ∃ next p, s.kernel.process.schedulerSearch s.kernel.current = some next ∧
      s.kernel.process next = some p ∧ s.switchTo next = some s' := by
  obtain ⟨⟨context, k⟩, scheduled, serves⟩ := Option.bind_eq_some_iff.mp ran
  obtain ⟨next, search, rest⟩ := Option.bind_eq_some_iff.mp scheduled
  obtain ⟨k₁, switch, resumed⟩ := Option.bind_eq_some_iff.mp rest
  obtain ⟨q, -, pair⟩ := Option.map_eq_some_iff.mp resumed
  obtain ⟨-, rfl⟩ := Prod.mk.inj pair
  obtain ⟨p, here, rfl⟩ := Option.map_eq_some_iff.mp switch
  refine ⟨next, p, search, here, ?_⟩
  unfold switchTo Kernel.processSwitchTo
  rw [here]
  exact serves

theorem switchTo_right {next : Nat} (sound : Sound frames s) (followed : s.Followed)
    (here : s.kernel.process next = some p) (alive : p.state ≠ .zombie)
    (ran : s.switchTo next = some s') : s.CallRight .schedule r s' := by
  obtain ⟨k, switches, rest⟩ := Option.bind_eq_some_iff.mp ran
  obtain ⟨q, found, rfl⟩ := Option.map_eq_some_iff.mp switches
  obtain rfl := Option.some.inj (here.symm.trans found)
  obtain ⟨u, served, rfl⟩ := Option.map_eq_some_iff.mp rest
  obtain rfl := Option.some.inj served
  refine right_similar followed (Similar.refl _) (Or.inr ⟨next, p, here, alive, rfl⟩)
    (frames_same sound rfl rfl) ?_ ?_
  · exact fun _ _ _ isExit => nomatch isExit
  · exact fun _ _ _ isWait => nomatch isWait

theorem page_right (sound : Sound frames s) (followed : s.Followed) {virt : Nat}
    {writeProtected : Bool} (meets : s.CallMeets (.page virt writeProtected))
    (served : s.spaces.serve (.allocAt virt writeProtected) = some u) :
    s.CallRight (.page virt writeProtected) r { s with spaces := u } ∧
      Sound frames { s with spaces := u } := by
  obtain ⟨someone, supplied⟩ := meets
  obtain ⟨slot, p, here, alive, root⟩ := followed someone
  have member : s.spaces.mmu.urp ∈ s.spaces.live := root ▸ sound.live slot p here alive
  obtain ⟨chain, roles⟩ := sound.owned.roles
  obtain ⟨frame, m, used, rest, ran, done, placement, -, -⟩ := UserSpaces.allocAt_owned
    sound.owned.mapping false writeProtected virt rfl roles (UserSpaces.mem_roots member) supplied
  have same : s.spaces.serve (.allocAt virt writeProtected) = some ⟨m, s.spaces.live⟩ := by
    show (Mmu.allocAt virt false writeProtected s.spaces.mmu).map _ = _
    rw [ran]
    rfl
  obtain rfl := Option.some.inj (same.symm.trans served)
  constructor
  · refine right_similar followed (Similar.refl _) (Or.inl done.urp) ?_ ?_ ?_
    · refine ⟨chain, rest, used, roles.pool, placement.pool, ?_, fun _ => trivial⟩
      rw [placement.split]
      exact List.Perm.refl _
    · exact fun _ _ _ isExit => nomatch isExit
    · exact fun _ _ _ isWait => nomatch isWait
  · have allowed : s.spaces.Allowed (.allocAt virt writeProtected) := ⟨supplied, fun _ _ _ => member⟩
    exact sound.serve (serve_allowed sound.owned allowed served) rfl

/-- A call that meets the condition does what it should, and each living process keeps a
space of its own. -/
theorem call_right {call : s.Call} (sound : Sound frames s) (followed : s.Followed)
    (meets : s.CallMeets call) (ran : s.exec call = some (r, s')) :
    s.CallRight call r s' ∧ Sound frames s' := by
  cases call with
  | create uid gid memory =>
      exact ⟨create_right sound followed meets ran, sound.create meets ran⟩
  | exit pid value =>
      obtain ⟨s₁, exits, pair⟩ := Option.map_eq_some_iff.mp ran
      obtain ⟨rfl, rfl⟩ := Prod.mk.inj pair
      refine ⟨exit_right sound followed meets exits, ?_⟩
      cases found : s.kernel.processFromPid pid with
      | none =>
          obtain ⟨k, ended, rest⟩ := Option.bind_eq_some_iff.mp exits
          rw [found] at rest
          obtain rfl := Option.some.inj rest
          rcases processExit_cases ended with ⟨-, rfl⟩ | ⟨p, t, kept, k₁, isP, -⟩
          · exact sound
          · exact nomatch found.symm.trans isP
      | some p =>
          obtain ⟨exitMeets, -⟩ := meets p found
          obtain ⟨inside, -⟩ := processFromPid_some found
          have isNat : pid = (pid.toNat : Int) := by omega
          rw [isNat] at found exits
          exact sound.exit found exitMeets exits
  | wait pid callback => exact ⟨wait_right sound followed ran, sound.wait ran⟩
  | schedule =>
      obtain ⟨s₁, scheduled, pair⟩ := Option.map_eq_some_iff.mp ran
      obtain ⟨rfl, rfl⟩ := Prod.mk.inj pair
      obtain ⟨next, p, search, here, switches⟩ := schedule_cases scheduled
      have alive := meets next p search here
      exact ⟨switchTo_right sound followed here alive switches, sound.switchTo here alive switches⟩
  | page virt writeProtected =>
      obtain ⟨u, served, pair⟩ := Option.map_eq_some_iff.mp ran
      obtain ⟨rfl, rfl⟩ := Prod.mk.inj pair
      exact page_right sound followed meets served

end Calls

end Spawner

namespace Spaces

open Spawner

variable {frames : List Nat} {steps : List Step} {s : Spawner}

/-- The value stays while nobody waits for it: what one more call keeps. -/
theorem uncollected_step {e : Step} {pid value : Int} {z : Process}
    (right : e.before.CallRight e.call e.answer e.after)
    (here : e.before.kernel.process pid.toNat = some z) (dead : z.state = .zombie)
    (returns : z.returnValue = value) (unwaited : ∀ pid', e.Waits pid' → pid'.toNat ≠ pid.toNat) :
    ∃ z', e.after.kernel.process pid.toNat = some z' ∧ z'.state = .zombie ∧ z'.returnValue = value := by
  obtain ⟨z', isNow, alike⟩ := right.kept pid.toNat z here dead
    fun pid' callback isWait => unwaited pid' ⟨callback, isWait⟩
  exact ⟨z', isNow, alike.life.mpr dead, alike.value.trans returns⟩

theorem run_kept (run : Run CallMeets frames steps s) :
    Spawner.Sound frames s ∧ s.Followed ∧ FreedOnce frames steps s := by
  induction run with
  | boot owned empty =>
      refine ⟨(Spawner.Run.boot owned empty).sound, ?_, owned, fun _ member => (nomatch member), ?_⟩
      · rintro ⟨slot, p, here⟩
        exact nomatch (empty slot).symm.trans here
      · intro later e older pid value split
        cases later with
        | nil => exact nomatch split
        | cons e' later => exact nomatch split
  | @call steps s s' call r run meets ran ih =>
      obtain ⟨sound, followed, once⟩ := ih
      obtain ⟨right, sound'⟩ := call_right sound followed meets ran
      refine ⟨sound', right.active, sound'.owned, List.forall_mem_cons.mpr ⟨right, once.right⟩, ?_⟩
      intro later e older pid value split ends unwaited
      cases later with
      | nil =>
          obtain ⟨rfl, -⟩ := List.cons.inj split
          obtain ⟨isExit, p, found, alive⟩ := ends
          exact right.ended pid value p isExit found alive
      | cons e' later =>
          obtain ⟨rfl, behind⟩ := List.cons.inj split
          obtain ⟨z, here, dead, returns⟩ := once.uncollected later e older pid value behind ends
            fun e'' member => unwaited e'' (List.mem_cons_of_mem _ member)
          exact @uncollected_step ⟨s, call, r, s'⟩ pid value z right here dead returns
            (unwaited _ List.mem_cons_self)

def after (s : Spawner) (call : s.Call) : Spawner := ((s.exec call).map Prod.snd).getD s

def record (s : Spawner) (block : Nat) : s.NewRecord :=
  if free : block ∉ s.heap then some (⟨block, free⟩, Kernel.blankProcess) else none

theorem Run.after {ok : (s : Spawner) → s.Call → Prop} (run : Run ok frames steps s) (call : s.Call)
    (meets : ok s call) (r : Int) (returns : (s.exec call).map Prod.fst = some r) :
    Run ok frames (⟨s, call, r, after s call⟩ :: steps) (after s call) := by
  obtain ⟨⟨r', s'⟩, ran, rfl⟩ := Option.map_eq_some_iff.mp returns
  have same : Spaces.after s call = s' := by
    unfold Spaces.after
    rw [ran]
    rfl
  rw [same]
  exact run.call meets ran

/-- Three processes in six frames. -/
def three : Spawner :=
  let first := after (bare 6) (.create 0 0 (record (bare 6) 4096))
  let second := after first (.create 0 0 (record first 8192))
  after second (.create 0 0 (record second 12288))

theorem three_run (ok : (s : Spawner) → s.Call → Prop)
    (creates : ∀ s memory, s.CreateMeets memory → ok s (.create 0 0 memory)) :
    ∃ steps, Run ok (frameList 6) steps three ∧ steps.map Step.answer = [2, 1, 0] := by
  have owned : (freshFrames 6).Owned (frameList 6) := freshFrames_owned (by decide) (by decide +kernel)
  have start : Run ok (frameList 6) [] (bare 6) := .boot owned fun _ => rfl
  have first := start.after (.create 0 0 (record (bare 6) 4096)) (creates _ _ fun _ _ => by decide +kernel) 0
    (by decide +kernel)
  have second := first.after (.create 0 0 (record _ 8192)) (creates _ _ fun _ _ => by decide +kernel) 1
    (by decide +kernel)
  have third := second.after (.create 0 0 (record _ 12288)) (creates _ _ fun _ _ => by decide +kernel) 2
    (by decide +kernel)
  exact ⟨_, third, rfl⟩

/-- A page for the third process, and a switch to the second. -/
def switched : Spawner := after (after three (.page 0x1000 false)) .schedule

/-- A frame whose link leads back to it is on no free list. -/
theorem no_pool_loop {f : Frames} {chain : List Nat} (pool : Frames.Pool f chain) (head : f.freeFrame ≠ 0)
    (loop : f.mem.load32 f.freeFrame = f.freeFrame) : False := by
  have linked := pool.linked
  cases chain with
  | nil => exact head linked
  | cons node rest =>
      have same : f.freeFrame = node := linked.1
      have again := linked.2.2
      dsimp only at again
      rw [← same, loop] at again
      cases rest with
      | nil => exact head again
      | cons other rest =>
          have once := (List.nodup_cons.mp pool.distinct).1
          rw [← same, again.1] at once
          exact once List.mem_cons_self

end Spaces

end TrollOS.Process
