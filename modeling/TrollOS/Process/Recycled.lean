import TrollOS.Process.Contexts

/-!
# A process record in recycled memory

`process_create` writes its record into what `kmalloc` hands out with the old contents
still there, and `fork` writes the registers of the parent over it.  Neither writes the
list of callbacks, and `fork` does not copy the status register.  Two runs over different
old contents tell the difference.
-/

namespace TrollOS.Process

/-- Two records agree in what `process_exit`, `process_wait` and `scheduler` read. -/
structure SameRead (p q : Process) : Prop where
  state : p.state = q.state
  callback : p.callback = q.callback
  userspace : p.userspace = q.userspace
  file : p.file = q.file

/-- Two contexts restore the same registers. -/
structure SameRegisters (p q : Context) : Prop where
  status : p.status = q.status
  pc : p.pc = q.pc
  stack : p.stack = q.stack
  general : p.general = q.general

/-- What a child takes from its parent. -/
structure ChildOf (parent child : Process) : Prop where
  status : child.reg.status = parent.reg.status
  pc : child.reg.pc = parent.reg.pc
  stack : child.reg.stack = parent.reg.stack
  general : child.reg.general = Function.update parent.reg.general 0 0
  file : child.file = parent.file
  callback : child.callback = []

/-- The old contents are by chance what a child of `parent` needs. -/
structure Clean (parent memory : Process) : Prop where
  callback : memory.callback = []
  status : memory.reg.status = parent.reg.status

namespace Kernel

def HasSlot (k : Kernel) : Prop :=
  ∃ last slot, k.process.slotSearch k.last (maxProcesses + 1) k.last = some (last, some slot)

/-- Two runs of `process_create` over different old contents make equal records. -/
def CreateIndependent (k : Kernel) (uid gid : Int) (frame : Nat) (memory₁ memory₂ : Process) :
    Prop :=
  ∀ r₁ r₂ k₁ k₂, k.processCreate uid gid (some memory₁) frame = some (r₁, k₁) →
    k.processCreate uid gid (some memory₂) frame = some (r₂, k₂) →
      r₁ = r₂ ∧ (0 ≤ r₁ → ∃ p q, k₁.processFromPid r₁ = some p ∧ k₂.processFromPid r₂ = some q ∧
        SameRead p q)

/-- Two runs of a successful `fork` over different old contents make equal children, which
are children of the unchanged parent. -/
def ForkIndependent (k : Kernel) (frame : Nat) (memory₁ memory₂ : Process) : Prop :=
  ∀ r₁ r₂ k₁ k₂, k.fork (some memory₁) frame true = some (r₁, k₁) →
    k.fork (some memory₂) frame true = some (r₂, k₂) →
      r₁ = r₂ ∧ (0 ≤ r₁ → ∃ parent p q, k.processFromPid k.current = some parent ∧
        k₁.processFromPid k.current = some parent ∧ k₂.processFromPid k.current = some parent ∧
          k₁.processFromPid r₁ = some p ∧ k₂.processFromPid r₂ = some q ∧
            SameRead p q ∧ SameRegisters p.reg q.reg ∧ ChildOf parent p ∧ ChildOf parent q)

variable {k : Kernel} {last : Int} {slot : Nat} {parent : Process}

theorem processCreate_slot (uid gid : Int) (memory : Process) (frame : Nat)
    (search : k.process.slotSearch k.last (maxProcesses + 1) k.last = some (last, some slot)) :
    k.processCreate uid gid (some memory) frame = some ((slot : Int),
      { k with
        process := Function.update k.process slot
          (some (freshProcess memory slot uid gid (initUserspace k.urp frame).1))
        last := last
        urp := (initUserspace k.urp frame).2 }) := by
  unfold processCreate
  rw [search]
  rfl

/-- Without a free slot the answer is an error, whatever the memory. -/
theorem processCreate_noSlot (noSlot : ¬ k.HasSlot) {uid gid r : Int} {memory : Process}
    {frame : Nat} {k' : Kernel}
    (ran : k.processCreate uid gid (some memory) frame = some (r, k')) : r = -eagain := by
  obtain ⟨⟨last, found⟩, search, result⟩ := Option.map_eq_some_iff.mp ran
  cases found with
  | none => exact (Prod.mk.inj result).1.symm
  | some slot => exact absurd ⟨last, slot, search⟩ noSlot

theorem create_independent_iff (k : Kernel) (uid gid : Int) (frame : Nat)
    (memory₁ memory₂ : Process) :
    k.CreateIndependent uid gid frame memory₁ memory₂ ↔
      (k.HasSlot → memory₁.callback = memory₂.callback) := by
  constructor
  · rintro same ⟨last, slot, search⟩
    obtain ⟨small, -⟩ := slotSearch_free _ search
    have ran₁ := processCreate_slot uid gid memory₁ frame search
    have ran₂ := processCreate_slot uid gid memory₂ frame search
    obtain ⟨-, records⟩ := same _ _ _ _ ran₁ ran₂
    obtain ⟨p, q, here₁, here₂, read⟩ := records (by omega)
    rw [processFromPid_eq small] at here₁ here₂
    dsimp only at here₁ here₂
    rw [Function.update_self] at here₁ here₂
    have callback := read.callback
    rwa [← Option.some.inj here₁, ← Option.some.inj here₂] at callback
  · intro same r₁ r₂ k₁ k₂ ran₁ ran₂
    by_cases found : k.HasSlot
    · have callback := same found
      obtain ⟨last, slot, search⟩ := found
      obtain ⟨small, -⟩ := slotSearch_free _ search
      rw [processCreate_slot uid gid memory₁ frame search] at ran₁
      rw [processCreate_slot uid gid memory₂ frame search] at ran₂
      obtain ⟨rfl, rfl⟩ := Prod.mk.inj (Option.some.inj ran₁)
      obtain ⟨rfl, rfl⟩ := Prod.mk.inj (Option.some.inj ran₂)
      let root := (initUserspace k.urp frame).1
      refine ⟨rfl, fun _ => ⟨freshProcess memory₁ slot uid gid root,
        freshProcess memory₂ slot uid gid root, ?_, ?_, ⟨rfl, callback, rfl, rfl⟩⟩⟩
      · rw [processFromPid_eq small]
        exact Function.update_self _ _ _
      · rw [processFromPid_eq small]
        exact Function.update_self _ _ _
    · obtain rfl := processCreate_noSlot found ran₁
      obtain rfl := processCreate_noSlot found ran₂
      exact ⟨rfl, fun positive => absurd positive (by decide)⟩

def child (k : Kernel) (parent memory : Process) (frame slot : Nat) : Process :=
  forkedProcess parent
    (freshProcess memory slot parent.user parent.group (initUserspace k.urp frame).1) slot

theorem fork_slot (here : k.processFromPid k.current = some parent) (memory : Process)
    (frame : Nat)
    (search : k.process.slotSearch k.last (maxProcesses + 1) k.last = some (last, some slot)) :
    k.fork (some memory) frame true = some ((slot : Int),
      { k with
        process := Function.update k.process slot (some (k.child parent memory frame slot))
        last := last
        urp := (initUserspace k.urp frame).2 }) := by
  obtain ⟨small, -⟩ := slotSearch_free _ search
  unfold fork
  rw [here]
  dsimp only
  rw [processCreate_slot _ _ _ _ search, Option.bind_some]
  dsimp only
  rw [if_neg (by omega), processFromPid_eq small]
  dsimp only
  rw [Function.update_self]
  dsimp only
  rw [if_pos rfl, Int.toNat_natCast, Function.update_idem]
  rfl

/-- Without a process that runs, or without a free slot, `fork` answers with an error. -/
theorem fork_refused {memory : Process} {frame : Nat} {r : Int} {k' : Kernel}
    (refused : ∀ parent, k.processFromPid k.current = some parent → ¬ k.HasSlot)
    (ran : k.fork (some memory) frame true = some (r, k')) : r = -eagain := by
  unfold fork at ran
  cases here : k.processFromPid k.current with
  | none =>
      rw [here] at ran
      exact (Prod.mk.inj (Option.some.inj ran)).1.symm
  | some parent =>
      rw [here] at ran
      dsimp only at ran
      obtain ⟨⟨pid, k₁⟩, creation, rest⟩ := Option.bind_eq_some_iff.mp ran
      obtain rfl := processCreate_noSlot (refused parent here) creation
      dsimp only at rest
      rw [if_pos (by decide)] at rest
      exact (Prod.mk.inj (Option.some.inj rest)).1.symm

theorem child_clean (k : Kernel) (parent memory : Process) (frame slot : Nat) :
    ChildOf parent (k.child parent memory frame slot) ↔ Clean parent memory :=
  ⟨fun right => ⟨right.callback, right.status⟩,
    fun clean => ⟨clean.status, rfl, rfl, rfl, rfl, clean.callback⟩⟩

theorem fork_independent_iff (k : Kernel) (frame : Nat) (memory₁ memory₂ : Process) :
    k.ForkIndependent frame memory₁ memory₂ ↔
      ∀ parent, k.processFromPid k.current = some parent → k.HasSlot →
        Clean parent memory₁ ∧ Clean parent memory₂ := by
  constructor
  · rintro same parent here ⟨last, slot, search⟩
    obtain ⟨small, -⟩ := slotSearch_free _ search
    obtain ⟨-, children⟩ := same _ _ _ _ (fork_slot here memory₁ frame search)
      (fork_slot here memory₂ frame search)
    obtain ⟨parent', p, q, here', -, -, here₁, here₂, -, -, right₁, right₂⟩ := children (by omega)
    rw [processFromPid_eq small] at here₁ here₂
    dsimp only at here₁ here₂
    rw [Function.update_self] at here₁ here₂
    rw [← Option.some.inj (here.symm.trans here'), ← Option.some.inj here₁] at right₁
    rw [← Option.some.inj (here.symm.trans here'), ← Option.some.inj here₂] at right₂
    exact ⟨(child_clean k parent memory₁ frame slot).mp right₁,
      (child_clean k parent memory₂ frame slot).mp right₂⟩
  · intro clean r₁ r₂ k₁ k₂ ran₁ ran₂
    by_cases found : ∃ parent, k.processFromPid k.current = some parent ∧ k.HasSlot
    · obtain ⟨parent, here, slotFound⟩ := found
      obtain ⟨clean₁, clean₂⟩ := clean parent here slotFound
      obtain ⟨last, slot, search⟩ := slotFound
      obtain ⟨small, free⟩ := slotSearch_free _ search
      rw [fork_slot here memory₁ frame search] at ran₁
      rw [fork_slot here memory₂ frame search] at ran₂
      obtain ⟨rfl, rfl⟩ := Prod.mk.inj (Option.some.inj ran₁)
      obtain ⟨rfl, rfl⟩ := Prod.mk.inj (Option.some.inj ran₂)
      have bound : k.current < maxProcesses := by
        by_contra large
        unfold processFromPid at here
        rw [if_pos (by omega)] at here
        exact nomatch here
      have inTable : k.process k.current = some parent := by
        rwa [processFromPid_eq bound] at here
      have other : k.current ≠ slot := fun same => by
        rw [same, free] at inTable
        exact nomatch inTable
      refine ⟨rfl, fun _ => ⟨parent, k.child parent memory₁ frame slot,
        k.child parent memory₂ frame slot, here, ?_, ?_, ?_, ?_, ?_, ?_, ?_, ?_⟩⟩
      · rw [processFromPid_eq bound]
        exact (Function.update_of_ne other _ _).trans inTable
      · rw [processFromPid_eq bound]
        exact (Function.update_of_ne other _ _).trans inTable
      · rw [processFromPid_eq small]
        exact Function.update_self _ _ _
      · rw [processFromPid_eq small]
        exact Function.update_self _ _ _
      · exact ⟨rfl, clean₁.callback.trans clean₂.callback.symm, rfl, rfl⟩
      · exact ⟨clean₁.status.trans clean₂.status.symm, rfl, rfl, rfl⟩
      · exact (child_clean k parent memory₁ frame slot).mpr clean₁
      · exact (child_clean k parent memory₂ frame slot).mpr clean₂
    · have refused : ∀ parent, k.processFromPid k.current = some parent → ¬ k.HasSlot :=
        fun parent here slotFound => found ⟨parent, here, slotFound⟩
      obtain rfl := fork_refused refused ran₁
      obtain rfl := fork_refused refused ran₂
      exact ⟨rfl, fun positive => absurd positive (by decide)⟩

/-- A new record is independent of the old contents of its memory exactly when these
agree in the fields nobody writes, and a child is right exactly when they are by chance
right for it. -/
theorem recycled_memory_seen_iff (k : Kernel) (frame : Nat) (memory₁ memory₂ : Process) :
    ((∀ uid gid, k.CreateIndependent uid gid frame memory₁ memory₂) ↔
        (k.HasSlot → memory₁.callback = memory₂.callback)) ∧
      (k.ForkIndependent frame memory₁ memory₂ ↔
        ∀ parent, k.processFromPid k.current = some parent → k.HasSlot →
          Clean parent memory₁ ∧ Clean parent memory₂) :=
  ⟨⟨fun same => (create_independent_iff k 0 0 frame memory₁ memory₂).mp (same 0 0),
    fun same uid gid => (create_independent_iff k uid gid frame memory₁ memory₂).mpr same⟩,
    fork_independent_iff k frame memory₁ memory₂⟩

theorem bootKernel_hasSlot : bootKernel.HasSlot := ⟨0, 0, rfl⟩

/-- The first process of all, over memory that held a process someone waited for. -/
theorem stale_callback_kept : ¬ ∀ (k : Kernel) (frame : Nat) (memory₁ memory₂ : Process),
    (∀ uid gid, k.CreateIndependent uid gid frame memory₁ memory₂) ∧
      k.ForkIndependent frame memory₁ memory₂ := by
  intro claim
  have same := (create_independent_iff bootKernel 0 0 4096 blankProcess
    { blankProcess with callback := [⟨2⟩] }).mp ((claim _ _ _ _).1 0 0) bootKernel_hasSlot
  exact nomatch same

end Kernel

end TrollOS.Process
