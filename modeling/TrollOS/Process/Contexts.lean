import TrollOS.Process.Syscall

/-!
# One context at every return to user mode

The registers, the user root pointer and `_process_current` belong to one live
process.  Whether the registers do is said by values: each process is owed the
ones it had when it last left user mode, with what its call changes in them.
-/

namespace TrollOS.Process

namespace Kernel

/-- Every process is alive and owns its saved registers, and the root pointer register
holds the root of the current one.  Until the context is `saved`, nothing is known about
the saved registers of the current process. -/
structure Coherent (Owns : Nat → Context → Prop) (saved : Bool) (k : Kernel) : Prop where
  small : k.current < maxProcesses
  root : ∃ p, k.process k.current = some p ∧ k.urp = p.userspace
  alive : ∀ slot p, k.process slot = some p → p.state ≠ .zombie
  own : ∀ slot p, k.process slot = some p → saved = true ∨ slot ≠ k.current → Owns slot p.reg

variable {Owns Owns' : Nat → Context → Prop} {saved : Bool} {k k' : Kernel}

theorem Coherent.unsaved (coherent : Coherent Owns true k) : Coherent Owns false k :=
  ⟨coherent.small, coherent.root, coherent.alive,
    fun slot p here _ => coherent.own slot p here (Or.inl rfl)⟩

/-- Who owns what may change as long as the other processes still own their registers. -/
theorem Coherent.reown (coherent : Coherent Owns false k)
    (still : ∀ slot p, k.process slot = some p → slot ≠ k.current → Owns slot p.reg → Owns' slot p.reg) :
    Coherent Owns' false k :=
  ⟨coherent.small, coherent.root, coherent.alive, fun slot p here known =>
    still slot p here (known.resolve_left (by decide)) (coherent.own slot p here known)⟩

/-- The table `t'` is `t` with some processes made running. -/
def Woken (t t' : Table) : Prop :=
  ∀ slot, t' slot = t slot ∨ ∃ p, t slot = some p ∧ t' slot = some { p with state := .running }

theorem Coherent.woken (coherent : Coherent Owns saved k) {t : Table} (woken : Woken k.process t) :
    Coherent Owns saved { k with process := t } := by
  obtain ⟨small, ⟨p, here, root⟩, alive, own⟩ := coherent
  constructor
  · exact small
  · rcases woken k.current with same | ⟨q, was, isNow⟩
    · exact ⟨p, same.trans here, root⟩
    · rw [here] at was
      refine ⟨_, isNow, ?_⟩
      rw [← Option.some.inj was]
      exact root
  · intro slot q inTable
    rcases woken slot with same | ⟨r, was, isNow⟩
    · exact alive slot q (same ▸ inTable)
    · rw [← Option.some.inj (isNow.symm.trans inTable)]
      exact fun impossible => nomatch impossible
  · intro slot q inTable known
    rcases woken slot with same | ⟨r, was, isNow⟩
    · exact own slot q (same ▸ inTable) known
    · rw [← Option.some.inj (isNow.symm.trans inTable)]
      exact own slot r was known

section Modify

variable {t : Table} {slot : Nat} {f : Process → Process}

/-- What is in a slot after a write through the pointer in `slot`. -/
theorem modify_cases {other : Nat} {q : Process} (here : t.modify slot f other = some q) :
    (other = slot ∧ ∃ p, t slot = some p ∧ q = f p) ∨ (other ≠ slot ∧ t other = some q) := by
  unfold Table.modify at here
  by_cases same : other = slot
  · rw [same, Function.update_self] at here
    obtain ⟨p, was, result⟩ := Option.map_eq_some_iff.mp here
    exact Or.inl ⟨same, p, was, result.symm⟩
  · rw [Function.update_of_ne same] at here
    exact Or.inr ⟨same, here⟩

/-- A write to one process that keeps its space and its life; `owned` says that the
process owns the registers where that is known. -/
theorem Coherent.modify {saved' : Bool} (coherent : Coherent Owns saved k) (slot : Nat)
    {f : Process → Process} (space : ∀ p, (f p).userspace = p.userspace)
    (state : ∀ p, p.state ≠ .zombie → (f p).state ≠ .zombie)
    (weaker : ∀ other, other ≠ slot → saved' = true ∨ other ≠ k.current →
      saved = true ∨ other ≠ k.current)
    (owned : ∀ p, k.process slot = some p → saved' = true ∨ slot ≠ k.current →
      Owns slot (f p).reg) :
    Coherent Owns saved' { k with process := k.process.modify slot f } := by
  obtain ⟨small, ⟨p, here, root⟩, alive, own⟩ := coherent
  constructor
  · exact small
  · by_cases same : k.current = slot
    · refine ⟨f p, ?_, ?_⟩
      · unfold Table.modify
        dsimp only
        rw [← same, Function.update_self, here]
        rfl
      · rw [space]
        exact root
    · refine ⟨p, ?_, root⟩
      unfold Table.modify
      dsimp only
      rw [Function.update_of_ne same]
      exact here
  · intro other q inTable
    rcases modify_cases inTable with ⟨-, r, was, rfl⟩ | ⟨-, was⟩
    · exact state r (alive _ r was)
    · exact alive other q was
  · intro other q inTable known
    rcases modify_cases inTable with ⟨same, r, was, rfl⟩ | ⟨ne, was⟩
    · rw [same] at known ⊢
      exact owned r was known
    · exact own other q was (weaker other ne known)

/-- A write that leaves the saved registers alone. -/
theorem Coherent.modify_keep (coherent : Coherent Owns saved k) (slot : Nat) {f : Process → Process}
    (space : ∀ p, (f p).userspace = p.userspace)
    (state : ∀ p, p.state ≠ .zombie → (f p).state ≠ .zombie)
    (registers : ∀ p, (f p).reg = p.reg) :
    Coherent Owns saved { k with process := k.process.modify slot f } :=
  coherent.modify slot space state (fun _ _ known => known) fun p here known => by
    rw [registers]
    exact coherent.own slot p here known

end Modify

/-- `process_save_context` of the registers of the current process. -/
theorem Coherent.save (coherent : Coherent Owns false k) {cpu : Context}
    (owned : Owns k.current { cpu with status := cpu.stack % 65536 }) :
    Coherent Owns true (k.processSaveContext cpu) := by
  apply coherent.modify k.current
  · exact fun _ => rfl
  · exact fun _ live => live
  · exact fun other ne _ => Or.inr ne
  · exact fun _ _ _ => owned

theorem setState_table {pid : Int} {state : ProcessState} (ran : k.setState pid state = some k') :
    k' = { k with process := k.process.modify pid.toNat fun p => { p with state := state } } := by
  obtain ⟨p, found, rfl⟩ := Option.map_eq_some_iff.mp ran
  have here : k.process pid.toNat = some p := by
    unfold processFromPid at found
    split at found
    · exact nomatch found
    · exact found
  unfold Table.modify
  rw [here]
  rfl

/-- Storing a state other than zombie. -/
theorem Coherent.setState (coherent : Coherent Owns saved k) {pid : Int} {state : ProcessState}
    (live : state ≠ .zombie) (ran : k.setState pid state = some k') :
    Coherent Owns saved k' ∧ k'.current = k.current := by
  rw [setState_table ran]
  exact ⟨coherent.modify_keep pid.toNat (fun _ => rfl) (fun _ _ => live) fun _ => rfl, rfl⟩

theorem Coherent.wakeAll (woken : List Int) (coherent : Coherent Owns saved k)
    (ran : k.wakeAll woken = some k') : Coherent Owns saved k' ∧ k'.current = k.current := by
  induction woken generalizing k with
  | nil =>
      rw [← Option.some.inj ran]
      exact ⟨coherent, rfl⟩
  | cons pid rest ih =>
      obtain ⟨k₁, first, later⟩ := Option.bind_eq_some_iff.mp ran
      have live : ProcessState.running ≠ .zombie := by decide
      obtain ⟨coherent₁, same₁⟩ := coherent.setState live first
      obtain ⟨coherent', same⟩ := ih coherent₁ later
      exact ⟨coherent', same.trans same₁⟩

/-- The scheduler resumes the context of the process it makes current. -/
theorem Coherent.scheduler (coherent : Coherent Owns true k) {context : Context}
    (ran : k.scheduler = some (context, k')) :
    Coherent Owns true k' ∧ Owns k'.current context := by
  obtain ⟨next, search, rest⟩ := Option.bind_eq_some_iff.mp ran
  obtain ⟨k₁, switched, result⟩ := Option.bind_eq_some_iff.mp rest
  obtain ⟨p, here, rfl⟩ := Option.map_eq_some_iff.mp switched
  obtain ⟨q, same, pair⟩ := Option.map_eq_some_iff.mp result
  obtain ⟨rfl, rfl⟩ := Prod.mk.inj pair
  obtain ⟨d, -, place, -⟩ := Table.schedulerSearch_iff.mp search
  have small : next < maxProcesses := by
    rw [place]
    exact Nat.mod_lt _ (by decide)
  refine ⟨⟨small, ⟨p, here, rfl⟩, coherent.alive, fun slot r inTable _ => ?_⟩, ?_⟩
  · exact coherent.own slot r inTable (Or.inl rfl)
  · exact coherent.own next q same (Or.inl rfl)

/-- The callback loop only wakes processes. -/
theorem runCallbacks_woken {t t' : Table} (callbacks : List ProcessCallback)
    {kept : List ProcessCallback} (ran : t.runCallbacks callbacks = some (t', kept)) :
    Woken t t' := by
  induction t, callbacks using Table.runCallbacks.induct generalizing t' kept with
  | case1 t =>
      rw [← (Prod.mk.inj (Option.some.inj ran)).1]
      exact fun slot => Or.inl rfl
  | case2 t c => exact nomatch ran
  | case3 t c skipped rest ih =>
      obtain ⟨t₁, woken, later⟩ := Option.bind_eq_some_iff.mp ran
      obtain ⟨⟨t₂, kept₂⟩, ran₂, pair⟩ := Option.map_eq_some_iff.mp later
      obtain ⟨rfl, -⟩ := Prod.mk.inj pair
      obtain ⟨p, here, rfl⟩ := Option.map_eq_some_iff.mp woken
      intro slot
      have after := ih _ ran₂ slot
      by_cases same : slot = c.owner
      · rw [same, Function.update_self] at after
        right
        refine ⟨p, by rw [same]; exact here, ?_⟩
        rw [same]
        rcases after with eq | ⟨q, isQ, eq⟩
        · exact eq
        · rw [eq, ← Option.some.inj isQ]
      · rw [Function.update_of_ne same] at after
        exact after

/-- `process_exit` of an occupied slot that is not the current one: other slots are at
most woken, and nothing else changes. -/
theorem processExit_other {pid returnValue : Int} (ran : k.processExit pid returnValue = some k')
    (other : k.current ≠ pid.toNat) :
    k'.current = k.current ∧ k'.urp = k.urp ∧
      ∀ slot, slot ≠ pid.toNat → k'.process slot = k.process slot ∨
        ∃ p, k.process slot = some p ∧ k'.process slot = some { p with state := .running } := by
  unfold processExit at ran
  by_cases outside : pid < 0 ∨ (maxProcesses : Int) ≤ pid
  · rw [if_pos outside] at ran
    rw [← Option.some.inj ran]
    exact ⟨rfl, rfl, fun slot _ => Or.inl rfl⟩
  · rw [if_neg outside] at ran
    dsimp only at ran
    cases here : k.process pid.toNat with
    | none =>
        rw [here] at ran
        rw [← Option.some.inj ran]
        exact ⟨rfl, rfl, fun slot _ => Or.inl rfl⟩
    | some proc =>
        rw [here] at ran
        dsimp only at ran
        by_cases protected' : pid.toNat = 0 ∨ pid.toNat = 1
        · rw [if_pos protected'] at ran
          exact nomatch ran
        · rw [if_neg protected'] at ran
          obtain ⟨⟨t, kept⟩, callbacks, rest⟩ := Option.bind_eq_some_iff.mp ran
          dsimp only at rest
          rw [if_neg other] at rest
          rw [← Option.some.inj rest]
          refine ⟨rfl, rfl, fun slot ne => ?_⟩
          unfold Table.modify
          dsimp only
          rw [Function.update_of_ne ne, Function.update_of_ne ne]
          exact runCallbacks_woken proc.callback callbacks slot

/-- The slot `process_create` chooses is a free one. -/
theorem slotSearch_free {t : Table} {tried : Int} (fuel : Nat) {last last' : Int} {pid : Nat}
    (found : t.slotSearch tried fuel last = some (last', some pid)) :
    pid < maxProcesses ∧ t pid = none := by
  induction fuel generalizing last with
  | zero => exact nomatch found
  | succ fuel ih =>
      unfold Table.slotSearch at found
      dsimp only at found
      split at found
      · exact nomatch found
      split at found
      · exact nomatch found
      split at found
      · exact ih found
      · rename_i free
        obtain ⟨-, isPid⟩ := Prod.mk.inj (Option.some.inj found)
        rw [← Option.some.inj isPid]
        constructor
        · unfold maxProcesses
          omega
        · cases here : t ((last + 1) % (maxProcesses : Int)).toNat with
          | none => rfl
          | some p =>
              rw [here] at free
              exact absurd rfl free

/-- Adding a process of its own registers in a free slot. -/
theorem Coherent.insert (coherent : Coherent Owns saved k) {pid : Nat} (free : k.process pid = none)
    {p : Process} (live : p.state ≠ .zombie) (own : Owns pid p.reg) (last : Int) :
    Coherent Owns saved { k with process := Function.update k.process pid (some p), last := last } := by
  obtain ⟨small, ⟨q, here, root⟩, alive, owns⟩ := coherent
  have otherSlot : k.current ≠ pid := fun same => by
    rw [same, free] at here
    exact nomatch here
  constructor
  · exact small
  · refine ⟨q, ?_, root⟩
    dsimp only
    rw [Function.update_of_ne otherSlot]
    exact here
  · intro slot r inTable
    by_cases same : slot = pid
    · simp only [same, Function.update_self] at inTable
      rw [← Option.some.inj inTable]
      exact live
    · simp only [Function.update_of_ne same] at inTable
      exact alive slot r inTable
  · intro slot r inTable known
    by_cases same : slot = pid
    · simp only [same, Function.update_self] at inTable
      rw [← Option.some.inj inTable, same]
      exact own
    · simp only [Function.update_of_ne same] at inTable
      exact owns slot r inTable known

theorem Coherent.withLast (coherent : Coherent Owns saved k) (last : Int) :
    Coherent Owns saved { k with last := last } :=
  ⟨coherent.small, coherent.root, coherent.alive, coherent.own⟩

theorem processFromPid_eq {pid : Nat} (small : pid < maxProcesses) :
    k.processFromPid pid = k.process pid := by
  unfold processFromPid
  rw [if_neg (by omega)]
  rfl

/-- `fork` reaches no new root: it fails before, or there is no frame for one.  (A frame
that is the root already would change nothing either; the allocator has none.) -/
def KeepsRoot (k : Kernel) (memory : Option Process) (frame : Nat) : Prop :=
  memory = none ∨ frame = 0 ∨ frame / 512 = k.urp ∨
    ∃ last, k.process.slotSearch k.last (maxProcesses + 1) k.last = some (last, none)

/-- The slot search only looks at which slots are occupied. -/
theorem slotSearch_congr {t t' : Table} (same : ∀ slot, (t slot).isSome = (t' slot).isSome)
    (tried : Int) (fuel : Nat) (last : Int) :
    t.slotSearch tried fuel last = t'.slotSearch tried fuel last := by
  induction fuel generalizing last with
  | zero => rfl
  | succ fuel ih =>
      unfold Table.slotSearch
      dsimp only
      rw [same, ih]

/-- Saving a context leaves the slot that is found. -/
theorem slotSearch_save (k : Kernel) (cpu : Context) :
    (k.processSaveContext cpu).process.slotSearch (k.processSaveContext cpu).last
        (maxProcesses + 1) (k.processSaveContext cpu).last =
      k.process.slotSearch k.last (maxProcesses + 1) k.last := by
  have same : ∀ slot, ((k.processSaveContext cpu).process slot).isSome =
      (k.process slot).isSome := by
    intro slot
    unfold processSaveContext Table.modify
    dsimp only
    by_cases here : slot = k.current
    · rw [here, Function.update_self, Option.isSome_map]
    · rw [Function.update_of_ne here]
  exact slotSearch_congr same _ _ _

theorem keepsRoot_save (k : Kernel) (cpu : Context) (memory : Option Process) (frame : Nat) :
    KeepsRoot (k.processSaveContext cpu) memory frame ↔ KeepsRoot k memory frame := by
  unfold KeepsRoot
  rw [slotSearch_save]
  rfl

/-- A pid that `fork` answers was that of a free slot. -/
theorem fork_free (coherent : Coherent Owns saved k) {memory : Option Process} {frame : Nat}
    {cloned : Bool} {r : Int} (ran : k.fork memory frame cloned = some (r, k')) :
    r < 0 ∨ k.process r.toNat = none := by
  obtain ⟨parent, here, -⟩ := coherent.root
  unfold Kernel.fork at ran
  rw [processFromPid_eq coherent.small, here] at ran
  dsimp only at ran
  obtain ⟨⟨pid, k₁⟩, creation, rest⟩ := Option.bind_eq_some_iff.mp ran
  dsimp only at rest
  rcases processCreate_cases creation with
    ⟨negative, -, -⟩ | ⟨last, slot, old, rfl, rfl, search, first⟩
  · rw [if_pos negative] at rest
    obtain ⟨rfl, -⟩ := Prod.mk.inj (Option.some.inj rest)
    exact Or.inl (by decide)
  · obtain ⟨small, free⟩ := slotSearch_free _ search
    have fresh : k₁.process slot =
        some (freshProcess old slot parent.user parent.group (initUserspace k.urp frame).1) := by
      rw [first]
      simp
    rw [if_neg (by omega), processFromPid_eq small, fresh] at rest
    dsimp only at rest
    cases cloned with
    | true =>
        obtain ⟨rfl, -⟩ := Prod.mk.inj (Option.some.inj rest)
        exact Or.inr free
    | false =>
        obtain ⟨k₂, -, rest₂⟩ := Option.bind_eq_some_iff.mp rest
        obtain ⟨k₃, -, rest₃⟩ := Option.bind_eq_some_iff.mp rest₂
        obtain ⟨⟨r', k₄⟩, -, pair⟩ := Option.map_eq_some_iff.mp rest₃
        obtain ⟨rfl, -⟩ := Prod.mk.inj pair
        exact Or.inl (by decide)

/-- The failing end of `fork` gives the slot back. -/
theorem fork_failed (coherent : Coherent Owns saved k) {pid : Nat} (small : pid < maxProcesses)
    (free : k.process pid = none) {p : Process} {last : Int} {urp : Nat} {k₁ k₂ k₃ k₄ : Kernel}
    (first : k₁ = { k with
      process := Function.update k.process pid (some p), last := last, urp := urp })
    (exited : k₁.processExit pid 1 = some k₂) (stored : k₂.setState pid .zombie = some k₃) {r : Int}
    (waited : k₃.processWait pid true = some (r, k₄)) :
    Coherent Owns saved { k₄ with urp := k.urp } ∧ k₄.current = k.current ∧ k₄.urp = urp := by
  obtain ⟨q, here, -⟩ := coherent.root
  have otherSlot : k.current ≠ pid := fun same => by
    rw [same, free] at here
    exact nomatch here
  have other : k₁.current ≠ (pid : Int).toNat := by
    rw [first]
    exact otherSlot
  obtain ⟨current₂, urp₂, table₂⟩ := processExit_other exited other
  have table₃ := setState_table stored
  obtain ⟨z, found, -⟩ := Option.map_eq_some_iff.mp stored
  rw [processFromPid_eq small] at found
  have zombie : k₃.process pid = some { z with state := .zombie } := by
    rw [table₃]
    unfold Table.modify
    simp [found]
  have done : (z.returnValue, { k₃ with process := Function.update k₃.process pid none }) =
      (r, k₄) := by
    unfold processWait at waited
    rw [if_neg (by omega)] at waited
    dsimp only at waited
    rw [Int.toNat_natCast, zombie] at waited
    exact Option.some.inj waited
  have result : k₄ = { k₃ with process := Function.update k₃.process pid none } :=
    (Prod.mk.inj done).2.symm
  have woken : Woken k.process k₄.process := by
    intro slot
    rw [result]
    by_cases same : slot = pid
    · left
      simp [same, free]
    · have was : k₁.process slot = k.process slot := by
        rw [first]
        exact Function.update_of_ne same _ _
      have after := table₂ slot (by simpa using same)
      rw [was] at after
      have isNow : (Function.update k₃.process pid none) slot = k₂.process slot := by
        rw [Function.update_of_ne same, table₃]
        unfold Table.modify
        exact Function.update_of_ne (by simpa using same) _ _
      dsimp only
      rw [isNow]
      exact after
  have current₄ : k₄.current = k.current := by
    rw [result, table₃]
    refine current₂.trans ?_
    rw [first]
  have urp₄ : k₄.urp = urp := by
    rw [result, table₃]
    refine urp₂.trans ?_
    rw [first]
  refine ⟨?_, current₄, urp₄⟩
  have after := coherent.woken woken
  exact ⟨by rw [current₄]; exact after.small, by rw [current₄]; exact after.root, after.alive,
    fun slot r inTable known => after.own slot r inTable (by rwa [current₄] at known)⟩

/-- The registers `fork` gives the child; the status is what was in memory before. -/
def childContext (parent old : Context) (pid : Nat) : Context :=
  { old with
    pc := parent.pc
    stack := parent.stack
    general := Function.update parent.general 0 0
    stream := pid }

/-- Apart from the root pointer register, `fork` keeps everything in order if the child
owns the registers it is given. -/
theorem Coherent.fork (coherent : Coherent Owns saved k) {memory : Option Process} {frame : Nat}
    {cloned : Bool} {r : Int} (ran : k.fork memory frame cloned = some (r, k'))
    (child : ∀ parent old last pid, k.process k.current = some parent → memory = some old →
      cloned = true → k.process.slotSearch k.last (maxProcesses + 1) k.last = some (last, some pid) → r = pid →
        Owns pid (childContext parent.reg old.reg pid)) :
    Coherent Owns saved { k' with urp := k.urp } ∧ k'.current = k.current ∧
      (k'.urp = k.urp ↔ KeepsRoot k memory frame) := by
  obtain ⟨parent, here, -⟩ := coherent.root
  unfold Kernel.fork at ran
  rw [processFromPid_eq coherent.small, here] at ran
  dsimp only at ran
  obtain ⟨⟨pid, k₁⟩, creation, rest⟩ := Option.bind_eq_some_iff.mp ran
  dsimp only at rest
  rcases processCreate_cases creation with
    ⟨negative, ⟨last, rfl⟩, cause⟩ | ⟨last, slot, old, rfl, rfl, search, first⟩
  · rw [if_pos negative] at rest
    obtain ⟨-, rfl⟩ := Prod.mk.inj (Option.some.inj rest)
    refine ⟨coherent.withLast last, rfl, iff_of_true rfl ?_⟩
    rcases cause with noMemory | noSlot
    · exact Or.inl noMemory
    · exact Or.inr (Or.inr (Or.inr noSlot))
  · obtain ⟨small, free⟩ := slotSearch_free _ search
    have current₁ : k₁.process slot =
        some (freshProcess old slot parent.user parent.group (initUserspace k.urp frame).1) := by
      rw [first]
      simp
    rw [if_neg (by omega), processFromPid_eq small, current₁] at rest
    dsimp only at rest
    have outcome : Coherent Owns saved { k' with urp := k.urp } ∧ k'.current = k.current ∧
        k'.urp = (initUserspace k.urp frame).2 := by
      cases cloned with
      | true =>
          rw [if_pos rfl] at rest
          obtain ⟨isPid, rfl⟩ := Prod.mk.inj (Option.some.inj rest)
          rw [first]
          refine ⟨?_, rfl, rfl⟩
          simp only [Function.update_idem, Int.toNat_natCast]
          exact coherent.insert free (show ProcessState.running ≠ .zombie by decide)
            (child parent old last slot here rfl rfl search isPid.symm) last
      | false =>
          rw [if_neg (by decide)] at rest
          obtain ⟨k₂, exited, rest₂⟩ := Option.bind_eq_some_iff.mp rest
          obtain ⟨k₃, stored, rest₃⟩ := Option.bind_eq_some_iff.mp rest₂
          obtain ⟨⟨r', k₄⟩, waited, pair⟩ := Option.map_eq_some_iff.mp rest₃
          obtain ⟨-, rfl⟩ := Prod.mk.inj pair
          exact fork_failed coherent small free first exited stored waited
    refine ⟨outcome.1, outcome.2.1, ?_⟩
    rw [outcome.2.2]
    unfold initUserspace KeepsRoot
    rw [search]
    by_cases noFrame : frame = 0
    · rw [if_pos noFrame]
      exact iff_of_true rfl (Or.inr (Or.inl noFrame))
    · rw [if_neg noFrame]
      constructor
      · exact fun same => Or.inr (Or.inr (Or.inl same))
      · rintro (impossible | zero | same | ⟨l, impossible⟩)
        · exact nomatch impossible
        · exact absurd zero noFrame
        · exact same
        · exact nomatch impossible

/-- A process that ends itself and is chosen again is a zombie. -/
theorem processExit_current {returnValue : Int} {p : Process} (small : k.current < maxProcesses)
    (here : k.process k.current = some p) (ran : k.processExit k.current returnValue = some k') :
    ¬ (k.current = 0 ∨ k.current = 1) ∧
      (k'.current = k.current → ∀ q, k'.process k.current = some q → q.state = .zombie) := by
  unfold processExit at ran
  rw [if_neg (by omega)] at ran
  dsimp only at ran
  rw [Int.toNat_natCast, here] at ran
  dsimp only at ran
  by_cases protected' : k.current = 0 ∨ k.current = 1
  · rw [if_pos protected'] at ran
    exact nomatch ran
  · rw [if_neg protected'] at ran
    obtain ⟨⟨t, kept⟩, callbacks, rest⟩ := Option.bind_eq_some_iff.mp ran
    obtain ⟨k₁, switched, result⟩ := Option.map_eq_some_iff.mp rest
    refine ⟨protected', fun _ q inTable => ?_⟩
    rw [← result] at inTable
    rcases modify_cases inTable with ⟨-, r, -, rfl⟩ | ⟨ne, -⟩
    · rfl
    · exact absurd rfl ne

end Kernel

namespace Machine

/-- The registers a process must find when it is resumed.  A system call may leave
anything in `a0` and `a1`. -/
structure Owed where
  registers : Context
  called : Bool

/-- The registers the machine goes on with are those. -/
def Owed.PaidBy (o : Owed) (cpu : Context) : Prop :=
  cpu.status = o.registers.status ∧ cpu.pc = o.registers.pc ∧ cpu.stack = o.registers.stack ∧
    cpu.stream = o.registers.stream ∧
    ∀ i, o.called = true ∧ (i = 8 ∨ i = 9) ∨ cpu.general i = o.registers.general i

/-- The machine, with what each process is owed. -/
structure Seen where
  machine : Machine
  owed : Nat → Option Owed

def answered (m : Machine) (result : Int) : Owed :=
  ⟨{ m.cpu with
      general := Function.update m.cpu.general 0 (result % 4294967296).toNat }, true⟩

def childStart (m : Machine) (pid : Nat) : Owed :=
  ⟨{ m.cpu with general := Function.update m.cpu.general 0 0, stream := pid }, false⟩

/-- The current process is owed `o`. -/
def owes (m : Machine) (owed : Nat → Option Owed) (o : Option Owed) : Nat → Option Owed :=
  Function.update owed m.kernel.current o

/-- What the processes are owed once the current one has entered the kernel. -/
def owedAfter (m : Machine) (owed : Nat → Option Owed) : Entry → Nat → Option Owed
  | .exit _ => m.owes owed none
  | .fork memory frame cloned =>
      match (m.kernel.processSaveContext m.cpu).fork memory frame cloned with
      | none => owed
      | some (result, _) =>
          let parent := m.owes owed (some (m.answered result))
          if result < 0 then parent
          else Function.update parent result.toNat (some (m.childStart result.toNat))
  | .execve filename entry _ =>
      let (result, forced, _) := (m.kernel.processSaveContext m.cpu).execve filename entry
      m.owes owed (some (if forced then ⟨{ m.cpu with pc := entry }, true⟩ else m.answered result))
  | .openFile filename globalFd =>
      m.owes owed
        (some (m.answered ((m.kernel.processSaveContext m.cpu).openFile filename globalFd).1))
  | .read fd answer blocks =>
      match (m.kernel.processSaveContext m.cpu).read fd answer blocks with
      | none => owed
      | some (result, _) => m.owes owed (some (m.answered result))
  | .write fd answer =>
      m.owes owed (some (m.answered ((m.kernel.processSaveContext m.cpu).write fd answer).1))
  | .timer _ => m.owes owed (some ⟨m.cpu, false⟩)

/-- The registers, the user root pointer and `_process_current` belong to one process
that is not a zombie. -/
def OneContext (s : Seen) : Prop :=
  ∃ p o, s.machine.kernel.process s.machine.kernel.current = some p ∧ p.state ≠ .zombie ∧
    s.machine.kernel.urp = p.userspace ∧ s.owed s.machine.kernel.current = some o ∧
    o.PaidBy s.machine.cpu

/-- No process but 0 and 1, whose end is a panic, ends itself; no fork reaches a new root,
and a child that comes about finds the status in the memory of its record; no execve
has a file name; and a timer comes where the status is the low half of the stack pointer. -/
def Meets (m : Machine) : Entry → Prop
  | .exit _ => m.kernel.current = 0 ∨ m.kernel.current = 1
  | .fork memory frame cloned =>
      m.kernel.KeepsRoot memory frame ∧
        ∀ old last pid, memory = some old → cloned = true →
          m.kernel.process.slotSearch m.kernel.last (maxProcesses + 1) m.kernel.last =
            some (last, some pid) → old.reg.status = m.cpu.status
  | .execve filename _ _ => filename = false
  | .timer _ => m.cpu.status = m.cpu.stack % 65536
  | _ => True

/-- The user program has run and left its registers; whose instructions they belong to it
cannot change. -/
def Seen.running (s : Seen) (cpu : Context) : Machine :=
  ⟨s.machine.kernel, { cpu with stream := s.machine.cpu.stream }⟩

def enter (s : Seen) (cpu : Context) (scratch : Nat × Nat) (e : Entry) : Option Seen :=
  ((s.running cpu).step scratch e).map fun m => ⟨m, (s.running cpu).owedAfter s.owed e⟩

/-- Runs from the start of the first process, all of whose entries satisfy `ok`. -/
inductive Run (ok : Machine → Entry → Prop) : Seen → Prop where
  | boot {m : Machine} {memory : Process} {frame entry : Nat} {general : Fin 15 → Nat}
      (frameFound : frame ≠ 0) (started : boot memory frame entry general = some m) :
      Run ok ⟨m, m.owes (fun _ => none) (some ⟨m.cpu, false⟩)⟩
  | enter {s s' : Seen} {cpu : Context} {scratch : Nat × Nat} {e : Entry} (run : Run ok s)
      (meets : ok (s.running cpu) e) (ran : enter s cpu scratch e = some s') : Run ok s'

/-- A process owns the registers that pay what it is owed. -/
def Owns (owed : Nat → Option Owed) (slot : Nat) (registers : Context) : Prop :=
  ∃ o, owed slot = some o ∧ o.PaidBy registers

variable {m m' : Machine} {owed : Nat → Option Owed} {s : Seen}

theorem owes_self (o : Option Owed) : m.owes owed o m.kernel.current = o :=
  Function.update_self _ _ _

theorem owes_other {slot : Nat} (other : slot ≠ m.kernel.current) (o : Option Owed) :
    m.owes owed o slot = owed slot := Function.update_of_ne other _ _

/-- What holds at every return to user mode. -/
structure Coherent (m : Machine) (owed : Nat → Option Owed) : Prop where
  kernel : Kernel.Coherent (Owns owed) false m.kernel
  resumed : Owns owed m.kernel.current m.cpu

theorem Coherent.oneContext (coherent : Coherent m owed) : OneContext ⟨m, owed⟩ := by
  obtain ⟨p, here, root⟩ := coherent.kernel.root
  obtain ⟨o, isOwed, paid⟩ := coherent.resumed
  exact ⟨p, o, here, coherent.kernel.alive _ p here, root, isOwed, paid⟩

/-- The others are owed what they were. -/
theorem reown_owes {k : Kernel} (coherent : Kernel.Coherent (Owns owed) false k)
    (same : k.current = m.kernel.current) (o : Option Owed) :
    Kernel.Coherent (Owns (m.owes owed o)) false k :=
  coherent.reown fun slot p _ other own => by
    obtain ⟨o', isOwed, paid⟩ := own
    rw [same] at other
    exact ⟨o', (owes_other other o).trans isOwed, paid⟩

theorem answered_paid (m : Machine) (scratch : Nat × Nat) (result : Int) :
    (m.answered result).PaidBy (returnFrom m.cpu scratch result) := by
  refine ⟨rfl, rfl, rfl, rfl, fun i => ?_⟩
  by_cases isA1 : i = 9
  · exact Or.inl ⟨rfl, Or.inr isA1⟩
  · by_cases isA0 : i = 8
    · exact Or.inl ⟨rfl, Or.inl isA0⟩
    · right
      unfold returnFrom answered
      dsimp only
      rw [Function.update_of_ne isA1, Function.update_of_ne isA0]

/-- A call that comes back with `rte`. -/
theorem rte_coherent {k : Kernel} (after : Kernel.Coherent (Owns owed) false k)
    (same : k.current = m.kernel.current) (scratch : Nat × Nat) (result : Int) :
    Coherent ⟨k, returnFrom m.cpu scratch result⟩ (m.owes owed (some (m.answered result))) := by
  refine ⟨reown_owes after same _, m.answered result, ?_, answered_paid m scratch result⟩
  dsimp only
  rw [same]
  exact owes_self _

theorem execve_nameless (k : Kernel) (entry : Nat) :
    k.execve false entry = (-einval, false, k) := rfl

/-- The calls that switch no context keep the kernel in order. -/
theorem openFile_coherent {k : Kernel} (coherent : Kernel.Coherent (Owns owed) false k)
    (filename : Bool) (globalFd : Int) :
    Kernel.Coherent (Owns owed) false (k.openFile filename globalFd).2 ∧
      (k.openFile filename globalFd).2.current = k.current := by
  unfold Kernel.openFile
  split
  · exact ⟨coherent, rfl⟩
  · split
    · exact ⟨coherent, rfl⟩
    · split
      · exact ⟨coherent, rfl⟩
      · split
        · exact ⟨coherent, rfl⟩
        · exact ⟨coherent.modify_keep _ (fun _ => rfl) (fun _ live => live) fun _ => rfl, rfl⟩

theorem read_coherent {k k' : Kernel} (coherent : Kernel.Coherent (Owns owed) false k)
    {fd answer r : Int} {blocks : Bool} (ran : k.read fd answer blocks = some (r, k')) :
    Kernel.Coherent (Owns owed) false k' ∧ k'.current = k.current := by
  have unchanged : ∀ {r' : Int}, some (r', k) = some (r, k') →
      Kernel.Coherent (Owns owed) false k' ∧ k'.current = k.current := by
    intro r' same
    rw [← (Prod.mk.inj (Option.some.inj same)).2]
    exact ⟨coherent, rfl⟩
  unfold Kernel.read at ran
  split at ran
  · exact unchanged ran
  · split at ran
    · exact unchanged ran
    · split at ran
      · exact unchanged ran
      · split at ran
        · obtain ⟨k₁, stored, pair⟩ := Option.map_eq_some_iff.mp ran
          obtain ⟨-, rfl⟩ := Prod.mk.inj pair
          exact coherent.setState (by decide) stored
        · exact unchanged ran

theorem write_kernel (k : Kernel) (fd answer : Int) : (k.write fd answer).2 = k := by
  unfold Kernel.write
  split
  · rfl
  · split
    · rfl
    · split
      · rfl
      · rfl

/-- `process_save_context` when nobody relies on what it saves. -/
theorem saved_coherent (kernel : Kernel.Coherent (Owns owed) false m.kernel) :
    Kernel.Coherent (Owns owed) false (m.kernel.processSaveContext m.cpu) := by
  apply kernel.modify m.kernel.current
  · exact fun _ => rfl
  · exact fun _ live => live
  · exact fun other ne _ => Or.inr ne
  · exact fun _ _ known => absurd rfl (known.resolve_left (by decide))

/-- A process that ends itself meets the condition only where the kernel panics. -/
theorem exit_stops (kernel : Kernel.Coherent (Owns owed) false m.kernel) {scratch : Nat × Nat}
    {returnValue : Int} (meets : Meets m (.exit returnValue)) :
    m.step scratch (.exit returnValue) ≠ some m' := by
  intro ran
  obtain ⟨⟨result, k⟩, ended, -⟩ := Option.map_eq_some_iff.mp ran
  obtain ⟨k₁, exited, -⟩ := Option.map_eq_some_iff.mp ended
  have saved := saved_coherent kernel
  obtain ⟨p, here, -⟩ := saved.root
  exact (Kernel.processExit_current saved.small here exited).1 meets

theorem childStart_paid (m : Machine) {old : Context} (pid : Nat)
    (status : old.status = m.cpu.status) :
    (m.childStart pid).PaidBy
      (Kernel.childContext { m.cpu with status := m.cpu.stack % 65536 } old pid) :=
  ⟨status, rfl, rfl, rfl, fun _ => Or.inr rfl⟩

theorem owedAfter_fork {memory : Option Process} {frame : Nat} {cloned : Bool} {result : Int}
    {k : Kernel}
    (forked : (m.kernel.processSaveContext m.cpu).fork memory frame cloned = some (result, k)) :
    m.owedAfter owed (.fork memory frame cloned) =
      if result < 0 then m.owes owed (some (m.answered result))
      else Function.update (m.owes owed (some (m.answered result))) result.toNat
        (some (m.childStart result.toNat)) := by
  simp only [owedAfter, forked]

theorem fork_coherent (kernel : Kernel.Coherent (Owns owed) false m.kernel) {memory : Option Process}
    {frame : Nat} {cloned : Bool} (meets : Meets m (.fork memory frame cloned)) {result : Int}
    {k : Kernel}
    (forked : (m.kernel.processSaveContext m.cpu).fork memory frame cloned = some (result, k)) :
    Kernel.Coherent (Owns (m.owedAfter owed (.fork memory frame cloned))) false k ∧
      k.current = m.kernel.current ∧
      m.owedAfter owed (.fork memory frame cloned) m.kernel.current = some (m.answered result) := by
  have saved := saved_coherent kernel
  obtain ⟨keeps, status⟩ := meets
  have current : (m.kernel.processSaveContext m.cpu).process m.kernel.current =
      (m.kernel.process m.kernel.current).map fun p =>
        { p with reg := { m.cpu with status := m.cpu.stack % 65536 } } :=
    Function.update_self _ _ _
  have slots := Kernel.slotSearch_save m.kernel m.cpu
  have whole : Kernel.Coherent (Owns (m.owedAfter owed (.fork memory frame cloned))) false
        { k with urp := m.kernel.urp } ∧ k.current = m.kernel.current ∧
      (k.urp = m.kernel.urp ↔ (m.kernel.processSaveContext m.cpu).KeepsRoot memory frame) := by
    have reowned : Kernel.Coherent (Owns (m.owedAfter owed (.fork memory frame cloned))) false
        (m.kernel.processSaveContext m.cpu) := by
      apply saved.reown
      rintro slot p here other ⟨o, isOwed, paid⟩
      refine ⟨o, ?_, paid⟩
      rw [owedAfter_fork forked]
      split
      · exact (owes_other other _).trans isOwed
      · have notChild : slot ≠ result.toNat := by
          intro same
          rcases Kernel.fork_free saved forked with negative | free
          · omega
          · rw [same, free] at here
            exact nomatch here
        rw [Function.update_of_ne notChild]
        exact (owes_other other _).trans isOwed
    apply reowned.fork forked
    rintro parent old last pid here rfl isCloned search isPid
    have parentReg : parent.reg = { m.cpu with status := m.cpu.stack % 65536 } := by
      obtain ⟨p, -, rfl⟩ := Option.map_eq_some_iff.mp (current.symm.trans here)
      rfl
    refine ⟨m.childStart pid, ?_, ?_⟩
    · rw [owedAfter_fork forked, if_neg (by omega), isPid, Int.toNat_natCast, Function.update_self]
    · rw [parentReg]
      apply childStart_paid
      apply status old last pid rfl isCloned
      rw [← slots]
      exact search
  obtain ⟨rest, same, root⟩ := whole
  have urp : k.urp = m.kernel.urp := by
    apply root.mpr
    exact (Kernel.keepsRoot_save m.kernel m.cpu memory frame).mpr keeps
  refine ⟨?_, same, ?_⟩
  · rw [← urp] at rest
    exact rest
  · rw [owedAfter_fork forked]
    split
    · exact owes_self _
    · have notChild : m.kernel.current ≠ result.toNat := by
        intro isChild
        obtain ⟨p, here, -⟩ := saved.root
        rcases Kernel.fork_free saved forked with negative | free
        · omega
        · rw [← isChild] at free
          exact absurd (free.symm.trans here) (by simp)
      rw [Function.update_of_ne notChild]
      exact owes_self _

/-- One entry into the kernel and the return from it. -/
theorem step_coherent (kernel : Kernel.Coherent (Owns owed) false m.kernel) {scratch : Nat × Nat}
    {e : Entry} (meets : Meets m e) (ran : m.step scratch e = some m') :
    Coherent m' (m.owedAfter owed e) := by
  have saved := saved_coherent kernel
  cases e with
  | exit returnValue => exact absurd ran (exit_stops kernel meets)
  | fork memory frame cloned =>
      obtain ⟨⟨result, k⟩, forked, rfl⟩ := Option.map_eq_some_iff.mp ran
      obtain ⟨after, same, isOwed⟩ := fork_coherent kernel meets forked
      refine ⟨after, m.answered result, ?_, answered_paid m scratch result⟩
      rw [← isOwed]
      exact congrArg _ same
  | execve filename entry usable =>
      obtain rfl := meets
      rw [Machine.step, execve_nameless] at ran
      obtain rfl := Option.some.inj ran
      exact rte_coherent saved rfl scratch _
  | openFile filename globalFd =>
      obtain ⟨after, same⟩ := openFile_coherent saved filename globalFd
      obtain rfl := Option.some.inj ran
      exact rte_coherent after same scratch _
  | read fd answer blocks =>
      obtain ⟨⟨result, k⟩, done, rfl⟩ := Option.map_eq_some_iff.mp ran
      obtain ⟨after, same⟩ := read_coherent saved done
      rw [show m.owedAfter owed (.read fd answer blocks) =
          m.owes owed (some (m.answered result)) by simp only [owedAfter, done]]
      exact rte_coherent after same scratch result
  | write fd answer =>
      obtain rfl := Option.some.inj ran
      have after := saved
      rw [← write_kernel (m.kernel.processSaveContext m.cpu) fd answer] at after
      refine rte_coherent after ?_ scratch _
      rw [write_kernel]
      rfl
  | timer woken =>
      obtain ⟨k, woke, switched⟩ := Option.bind_eq_some_iff.mp ran
      obtain ⟨⟨context, k'⟩, chosen, rfl⟩ := Option.map_eq_some_iff.mp switched
      obtain ⟨after, same⟩ := kernel.wakeAll woken woke
      -- with the right status the saved registers are the interrupted ones
      have whole : { m.cpu with status := m.cpu.stack % 65536 } = m.cpu := by
        rw [← show m.cpu.status = m.cpu.stack % 65536 from meets]
      have kept : Kernel.Coherent (Owns (m.owedAfter owed (.timer woken))) true
          (k.processSaveContext m.cpu) := by
        apply (reown_owes after same (some ⟨m.cpu, false⟩)).save
        refine ⟨⟨m.cpu, false⟩, ?_, ?_⟩
        · rw [same]
          exact owes_self _
        · rw [whole]
          exact ⟨rfl, rfl, rfl, rfl, fun _ => Or.inr rfl⟩
      obtain ⟨resumed, own⟩ := kept.scheduler chosen
      exact ⟨resumed.unsaved, own⟩

theorem boot_coherent {memory : Process} {frame entry : Nat} {general : Fin 15 → Nat}
    (started : boot memory frame entry general = some m) :
    Coherent m (m.owes (fun _ => none) (some ⟨m.cpu, false⟩)) := by
  refine ⟨?_, ⟨m.cpu, false⟩, owes_self _, rfl, rfl, rfl, rfl, fun _ => Or.inr rfl⟩
  generalize m.owes (fun _ => none) (some ⟨m.cpu, false⟩) = owed
  obtain ⟨⟨pid, k₁⟩, creation, rest⟩ := Option.bind_eq_some_iff.mp started
  obtain ⟨k₂, switched, rfl⟩ := Option.map_eq_some_iff.mp rest
  obtain ⟨p, here, rfl⟩ := Option.map_eq_some_iff.mp switched
  rcases Kernel.processCreate_cases creation with
    ⟨-, ⟨last, rfl⟩, -⟩ | ⟨last, slot, old, -, rfl, search, rfl⟩
  · exact nomatch here
  · obtain ⟨small, -⟩ := Kernel.slotSearch_free _ search
    rw [Int.toNat_natCast] at here ⊢
    simp only [Function.update_self, Option.some.injEq] at here
    have only : ∀ other q, Function.update Kernel.bootKernel.process slot
        (some (Kernel.freshProcess old slot 0 0
          (Kernel.initUserspace Kernel.bootKernel.urp frame).1)) other = some q →
        other = slot ∧ q = p := by
      intro other q inTable
      by_cases same : other = slot
      · rw [same, Function.update_self, here] at inTable
        exact ⟨same, (Option.some.inj inTable).symm⟩
      · rw [Function.update_of_ne same] at inTable
        exact nomatch inTable
    have live : p.state ≠ .zombie := by
      rw [← here]
      exact show ProcessState.running ≠ .zombie by decide
    have start : Kernel.Coherent (Owns owed) false
        { Kernel.bootKernel with
          process := Function.update Kernel.bootKernel.process slot
            (some (Kernel.freshProcess old slot 0 0
              (Kernel.initUserspace Kernel.bootKernel.urp frame).1))
          last := last
          current := slot
          urp := p.userspace
          mapped := p.userspace } := by
      constructor
      · exact small
      · refine ⟨p, ?_, rfl⟩
        dsimp only
        rw [Function.update_self, here]
      · intro other q inTable
        rw [(only other q inTable).2]
        exact live
      · rintro other q inTable (impossible | ne)
        · exact nomatch impossible
        · exact absurd (only other q inTable).1 ne
    have pc := start.modify slot
      (f := fun p => { p with reg := { p.reg with pc := entry } })
      (fun _ => rfl) (fun _ live => live) (fun _ _ known => known)
      (fun _ _ known => absurd rfl (known.resolve_left (by decide)))
    have files := pc.modify_keep slot
      (f := fun p => { p with file := fun fd => if fd.val < 3 then 0 else p.file fd })
      (fun _ => rfl) (fun _ live => live) (fun _ => rfl)
    unfold Kernel.processSetPc
    rw [if_neg (by omega), Int.toNat_natCast]
    exact files

/-- In every run whose entries meet the condition there is one context at every return to
user mode: the one that the current process is owed. -/
theorem one_context (run : Run Meets s) : OneContext s := by
  have coherent : Coherent s.machine s.owed := by
    induction run with
    | boot frameFound started => exact boot_coherent started
    | @enter s s' cpu scratch e run meets ran ih =>
        obtain ⟨m, stepped, rfl⟩ := Option.map_eq_some_iff.mp ran
        exact step_coherent (m := s.running cpu) ih.kernel meets stepped
  exact coherent.oneContext

/-- The machine at the start of the first process, with its root table at 4096. -/
def firstMachine : Machine :=
  (boot Kernel.blankProcess 4096 65536 fun _ => 0).getD
    ⟨Kernel.bootKernel, ⟨0, 0, 0, fun _ => 0, 0⟩⟩

theorem firstMachine_boot :
    boot Kernel.blankProcess 4096 65536 (fun _ => 0) = some firstMachine := by
  have returns : (boot Kernel.blankProcess 4096 65536 fun _ => 0).isSome = true := by
    decide +kernel
  obtain ⟨m, started⟩ := Option.isSome_iff_exists.mp returns
  unfold firstMachine
  rw [started]
  rfl

def firstSeen : Seen :=
  ⟨firstMachine, firstMachine.owes (fun _ => none) (some ⟨firstMachine.cpu, false⟩)⟩

theorem firstSeen_run (ok : Machine → Entry → Prop) : Run ok firstSeen :=
  .boot (by decide) firstMachine_boot

/-- Entries one after another, with what the user programs leave before each. -/
def Seen.through (s : Seen) : List (Context × Entry) → Option Seen
  | [] => some s
  | (cpu, e) :: rest => (enter s cpu (0, 0) e).bind fun s => s.through rest

/-- The first process writes, `kmalloc` has nothing for its fork, and the timer comes while
its stack is at 0x20000. -/
def firstEntries : List (Context × Entry) :=
  [(⟨0, 65540, 131064, fun i => i.val, 0⟩, .write 1 5),
    (⟨0, 65544, 131060, fun _ => 7, 0⟩, .fork none 8192 true),
    (⟨0, 65548, 131072, fun _ => 9, 0⟩, .timer [])]

theorem one_context_firstEntries : ∃ s, firstSeen.through firstEntries = some s ∧ OneContext s := by
  have returns : (firstSeen.through firstEntries).isSome = true := by decide +kernel
  obtain ⟨s, ran⟩ := Option.isSome_iff_exists.mp returns
  obtain ⟨s₁, first, rest⟩ := Option.bind_eq_some_iff.mp ran
  obtain ⟨s₂, second, rest⟩ := Option.bind_eq_some_iff.mp rest
  obtain ⟨s₃, third, done⟩ := Option.bind_eq_some_iff.mp rest
  obtain rfl := Option.some.inj done
  have run₁ : Run Meets s₁ := .enter (firstSeen_run _) (by exact trivial) first
  have run₂ : Run Meets s₂ :=
    .enter run₁ (by exact ⟨Or.inl rfl, fun _ _ _ noMemory => nomatch noMemory⟩) second
  exact ⟨s₃, ran, one_context (.enter run₂ (by simp [Meets, Seen.running]) third)⟩

/-- The first process forks and comes back in the space of its child. -/
theorem fork_changes_root : ¬ ∀ s, Run (fun _ _ => True) s → OneContext s := by
  intro claim
  let child : Entry := .fork (some Kernel.blankProcess) 8192 true
  have returns : (enter firstSeen firstMachine.cpu (0, 0) child).isSome = true := by
    decide +kernel
  obtain ⟨s, ran⟩ := Option.isSome_iff_exists.mp returns
  have root : (enter firstSeen firstMachine.cpu (0, 0) child).map (fun s =>
      s.machine.kernel.urp) = some 16 := by decide +kernel
  have own : (enter firstSeen firstMachine.cpu (0, 0) child).map (fun s =>
      (s.machine.kernel.process s.machine.kernel.current).map Process.userspace) =
        some (some 8) := by decide +kernel
  obtain ⟨p, o, here, -, agree, -⟩ := claim s (.enter (firstSeen_run _) trivial ran)
  rw [ran] at root own
  have rootEq : s.machine.kernel.urp = 16 := Option.some.inj root
  have ownEq : (s.machine.kernel.process s.machine.kernel.current).map Process.userspace =
      some 8 := Option.some.inj own
  rw [here] at ownEq
  have spaceEq : p.userspace = 8 := Option.some.inj ownEq
  omega

end Machine

end TrollOS.Process
