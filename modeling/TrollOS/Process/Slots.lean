import TrollOS.Process.Scheduling

/-!
# Process slots and pids

The search of `process_create` compares a pid below `MAX_PROCESSES` with the
counter as it was before, which is never reduced.  So it ends without a slot
one place too early while the counter is small, and never once it is large.
-/

namespace TrollOS.Process

namespace Table

def pidAfter (last : Int) (d : Nat) : Nat := ((last + d) % maxProcesses).toNat

def Full (t : Table) : Prop := ∀ slot, slot < maxProcesses → (t slot).isSome = true

/-- The first free slot in cyclic order after the counter is `d` places away. -/
def FirstFree (t : Table) (last : Int) (d : Nat) : Prop :=
  1 ≤ d ∧ d ≤ maxProcesses ∧ t (pidAfter last d) = none ∧
    ∀ e, 1 ≤ e → e < d → (t (pidAfter last e)).isSome = true

variable {t : Table} {last tried : Int} {d fuel : Nat}

theorem pidAfter_lt (last : Int) (d : Nat) : pidAfter last d < maxProcesses := by
  unfold pidAfter maxProcesses
  omega

/-- One round of the search. -/
theorem slotSearch_step (room : last < pidMax) (fuel : Nat) :
    t.slotSearch tried (fuel + 1) last =
      if (last + 1) % maxProcesses = tried then some (last + 1, none)
      else if (t (pidAfter last 1)).isSome then t.slotSearch tried fuel (last + 1)
      else some (last + 1, some (pidAfter last 1)) := by
  rw [slotSearch, if_neg (Int.not_le_of_gt room)]
  rfl

/-- The search passes over occupied slots other than the one it started at. -/
theorem slotSearch_walk (room : last + d ≤ pidMax)
    (occupied : ∀ e, 1 ≤ e → e ≤ d → (t (pidAfter last e)).isSome = true)
    (other : ∀ e : Nat, 1 ≤ e → e ≤ d → (last + e) % maxProcesses ≠ tried) :
    t.slotSearch tried (fuel + d) last = t.slotSearch tried fuel (last + d) := by
  induction d generalizing fuel with
  | zero => rw [Nat.add_zero, Int.ofNat_zero, Int.add_zero]
  | succ d ih =>
      have walked := @ih (fuel + 1) (by omega)
        (fun e low high => occupied e low (Nat.le_succ_of_le high))
        (fun e low high => other e low (Nat.le_succ_of_le high))
      have next : last + (d : Int) + 1 = last + ((d + 1 : Nat) : Int) := by omega
      have same : pidAfter (last + d) 1 = pidAfter last (d + 1) := by
        unfold pidAfter
        congr 2
      rw [show fuel + (d + 1) = fuel + 1 + d by omega, walked, slotSearch_step (by omega), same,
        next, if_neg (other (d + 1) (Nat.succ_pos d) (Nat.le_refl _)),
        if_pos (occupied (d + 1) (Nat.succ_pos d) (Nat.le_refl _))]

/-- Where the increment is undefined the search gives nothing. -/
theorem slotSearch_overflow (full : pidMax ≤ last) : t.slotSearch tried fuel last = none := by
  cases fuel with
  | zero => rfl
  | succ fuel =>
      unfold slotSearch
      rw [if_pos full]

/-- With every slot occupied and no way round to `tried` the search never ends. -/
theorem slotSearch_none (full : t.Full) (outside : ¬ (0 ≤ tried ∧ tried < maxProcesses)) :
    t.slotSearch tried fuel last = none := by
  induction fuel generalizing last with
  | zero => rfl
  | succ fuel ih =>
      by_cases room : last < pidMax
      · rw [slotSearch_step room, if_neg, if_pos (full _ (pidAfter_lt last 1)), ih]
        intro same
        apply outside
        rw [← same]
        unfold maxProcesses
        omega
      · exact slotSearch_overflow (Int.not_lt.mp room)

/-- With every slot occupied and the counter small the search comes round. -/
theorem slotSearch_full (full : t.Full) (low : 0 ≤ last) (high : last < maxProcesses) :
    t.slotSearch last (maxProcesses + 1) last = some (last + maxProcesses, none) := by
  have walked := @slotSearch_walk t last last 1023 2 (by unfold maxProcesses pidMax at *; omega)
    (fun e _ _ => full _ (pidAfter_lt last e))
    (fun e low' high' => by unfold maxProcesses at *; omega)
  have round : (last + (1023 : Nat) + 1) % maxProcesses = last := by
    unfold maxProcesses at *
    omega
  have here : last + (1023 : Nat) < pidMax := by
    unfold maxProcesses pidMax at *
    omega
  rw [show maxProcesses + 1 = 2 + 1023 from rfl, walked, slotSearch_step here, if_pos round,
    Int.add_assoc]
  rfl

theorem pidAfter_distance {slot : Nat} (small : slot < maxProcesses) (last : Int) :
    pidAfter last (((slot - last - 1) % maxProcesses).toNat + 1) = slot := by
  unfold pidAfter
  unfold maxProcesses at *
  omega

theorem firstFree_exists (notFull : ¬ t.Full) (last : Int) : ∃ d, t.FirstFree last d := by
  obtain ⟨slot, free⟩ := not_forall.mp notFull
  obtain ⟨small, empty⟩ := Classical.not_imp.mp free
  have near : ((slot - last - 1) % maxProcesses).toNat + 1 ≤ maxProcesses := by
    unfold maxProcesses
    omega
  have hit : 1 ≤ ((slot - last - 1) % maxProcesses).toNat + 1 ∧
      t (pidAfter last (((slot - last - 1) % maxProcesses).toNat + 1)) = none := by
    rw [pidAfter_distance small]
    exact ⟨Nat.succ_pos _, Option.not_isSome_iff_eq_none.mp empty⟩
  have some : ∃ d, 1 ≤ d ∧ t (pidAfter last d) = none := ⟨_, hit⟩
  have first := Nat.find_spec some
  refine ⟨Nat.find some, first.1, Nat.le_trans (Nat.find_min' some hit) near, first.2, ?_⟩
  intro e low early
  have occupied := Nat.find_min some early
  cases here : t (pidAfter last e) with
  | none => exact absurd ⟨low, here⟩ occupied
  | some p => rfl

/-- The counter's own slot is the last one the search would look at, and it gives up
there while the counter is small. -/
def ComesRound (last : Int) (d : Nat) : Prop := d = maxProcesses ∧ 0 ≤ last ∧ last < maxProcesses

theorem FirstFree.other (first : t.FirstFree last d) {e : Nat} (low : 1 ≤ e) (early : e < d) :
    (last + e) % maxProcesses ≠ last := by
  have near := first.2.1
  unfold maxProcesses at *
  omega

theorem FirstFree.walk (first : t.FirstFree last d) (room : last + d ≤ pidMax) (fuel : Nat) :
    t.slotSearch last (fuel + 1 + (d - 1)) last =
      if (last + d) % maxProcesses = last then some (last + d, none)
      else some (last + d, some (pidAfter last d)) := by
  have some : 1 ≤ d := first.1
  have walked := @slotSearch_walk t last last (d - 1) (fuel + 1) (by omega)
    (fun e low early => first.2.2.2 e low (by omega))
    (fun e low early => first.other low (by omega))
  have next : last + ((d - 1 : Nat) : Int) + 1 = last + d := by omega
  have same : pidAfter (last + ((d - 1 : Nat) : Int)) 1 = pidAfter last d := by
    unfold pidAfter
    congr 2
  have free : ¬ (t (pidAfter last d)).isSome = true := by
    rw [first.2.2.1]
    decide
  rw [walked, slotSearch_step (by omega), next, same, if_neg free]

/-- What the search gives when there is a free slot. -/
theorem slotSearch_free_eq (first : t.FirstFree last d) :
    (pidMax < last + d ∧ t.slotSearch last (maxProcesses + 1) last = none) ∨
      (last + d ≤ pidMax ∧ ComesRound last d ∧
        t.slotSearch last (maxProcesses + 1) last = some (last + d, none)) ∨
      (last + d ≤ pidMax ∧ ¬ ComesRound last d ∧
        t.slotSearch last (maxProcesses + 1) last = some (last + d, some (pidAfter last d))) := by
  have some : 1 ≤ d := first.1
  have near : d ≤ maxProcesses := first.2.1
  by_cases room : last + d ≤ pidMax
  · have fuel : maxProcesses + 1 = maxProcesses + 1 - d + 1 + (d - 1) := by omega
    right
    rw [fuel, first.walk room]
    by_cases round : ComesRound last d
    · left
      refine ⟨room, round, if_pos ?_⟩
      obtain ⟨whole, low, high⟩ := round
      unfold maxProcesses at *
      omega
    · right
      refine ⟨room, round, if_neg fun same => round ?_⟩
      unfold ComesRound
      unfold maxProcesses at *
      omega
  · left
    refine ⟨Int.not_le.mp room, ?_⟩
    by_cases high : pidMax ≤ last
    · exact slotSearch_overflow high
    · have walked := @slotSearch_walk t last last (pidMax - last).toNat
        (maxProcesses + 1 - (pidMax - last).toNat) (by omega)
        (fun e low early => first.2.2.2 e low (by omega))
        (fun e low early => first.other low (by omega))
      rw [show maxProcesses + 1 = maxProcesses + 1 - (pidMax - last).toNat + (pidMax - last).toNat
        by omega, walked]
      exact slotSearch_overflow (by omega)

end Table

namespace Kernel

/-- What the claimed behaviour of one `process_create` is: it returns, gives up exactly
when every slot is occupied, fills a free slot with a process that has a root frame of
its own, and leaves the table alone when it fails. -/
def CreateRight (k : Kernel) (uid gid : Int) (memory : Option Process) (frame : Nat) : Prop :=
  ∃ r k', k.processCreate uid gid memory frame = some (r, k') ∧
    (r = -eagain ↔ k.process.Full) ∧
    (0 ≤ r → r < maxProcesses ∧ k.process r.toNat = none ∧
      (∃ p, k'.process r.toNat = some p ∧ p.pid = r ∧ frame ≠ 0 ∧ p.userspace = frame / 512) ∧
      ∀ slot, slot ≠ r.toNat → k'.process slot = k.process slot) ∧
    (r < 0 → k'.process = k.process)

/-- With a full table the counter must still be small; otherwise the first free slot is
not the counter's own while that is small, the counter does not overflow on the way,
and a process that gets memory gets a frame. -/
def CreateMeets (k : Kernel) (memory : Option Process) (frame : Nat) : Prop :=
  (k.process.Full → 0 ≤ k.last ∧ k.last < maxProcesses) ∧
    ∀ d, k.process.FirstFree k.last d →
      k.last + d ≤ pidMax ∧ ¬ Table.ComesRound k.last d ∧ (memory.isSome = true → frame ≠ 0)

variable {k : Kernel} {memory : Option Process} {frame : Nat}

theorem Full.no_free {t : Table} (full : t.Full) {last : Int} {d : Nat} : ¬ t.FirstFree last d := by
  intro first
  have occupied := full _ (Table.pidAfter_lt last d)
  rw [first.2.2.1] at occupied
  exact nomatch occupied

/-- One search without a slot is right exactly when the table is full. -/
theorem create_refused (uid gid : Int) {last : Int}
    (search : k.process.slotSearch k.last (maxProcesses + 1) k.last = some (last, none)) :
    k.CreateRight uid gid memory frame ↔ k.process.Full := by
  have ran : k.processCreate uid gid memory frame = some (-eagain, { k with last := last }) := by
    unfold processCreate
    rw [search]
    rfl
  constructor
  · rintro ⟨r, k', out, gaveUp, -⟩
    obtain ⟨rfl, -⟩ := Prod.mk.inj (Option.some.inj (ran.symm.trans out))
    exact gaveUp.mp rfl
  · intro full
    refine ⟨_, _, ran, ⟨fun _ => full, fun _ => rfl⟩, fun positive => ?_, fun _ => rfl⟩
    exact absurd positive (by decide)

theorem create_stuck (uid gid : Int)
    (search : k.process.slotSearch k.last (maxProcesses + 1) k.last = none) :
    ¬ k.CreateRight uid gid memory frame := by
  rintro ⟨r, k', ran, -⟩
  unfold processCreate at ran
  rw [search] at ran
  exact nomatch ran

/-- A search that finds a slot is right exactly when the process gets a frame. -/
theorem create_found (uid gid : Int) {d : Nat} (first : k.process.FirstFree k.last d) {last : Int}
    (search : k.process.slotSearch k.last (maxProcesses + 1) k.last =
      some (last, some (Table.pidAfter k.last d))) :
    k.CreateRight uid gid memory frame ↔ (memory.isSome = true → frame ≠ 0) := by
  have notFull : ¬ k.process.Full := fun full => Full.no_free full first
  cases memory with
  | none =>
      have ran : k.processCreate uid gid none frame = some (-enomem, { k with last := last }) := by
        unfold processCreate
        rw [search]
        rfl
      constructor
      · intro _ impossible
        exact nomatch impossible
      · intro _
        refine ⟨_, _, ran, ⟨fun same => absurd same (by decide), fun full => absurd full notFull⟩,
          fun positive => absurd positive (by decide), fun _ => rfl⟩
  | some old =>
      have ran : ∃ k' : Kernel, k.processCreate uid gid (some old) frame =
            some (((Table.pidAfter k.last d : Nat) : Int), k') ∧
          k'.process = Function.update k.process (Table.pidAfter k.last d)
            (some (freshProcess old (Table.pidAfter k.last d) uid gid
              (initUserspace k.urp frame).1)) := by
        unfold processCreate
        rw [search]
        exact ⟨_, rfl, rfl⟩
      obtain ⟨k', ran, table⟩ := ran
      constructor
      · rintro ⟨r, k'', out, -, good, -⟩ _
        obtain ⟨rfl, rfl⟩ := Prod.mk.inj (Option.some.inj (ran.symm.trans out))
        obtain ⟨-, -, ⟨p, -, -, owned, -⟩, -⟩ := good (Int.natCast_nonneg _)
        exact owned
      · intro owned
        refine ⟨_, _, ran, ⟨fun same => ?_, fun full => absurd full notFull⟩, fun _ => ?_,
          fun negative => absurd negative (Int.not_lt.mpr (Int.natCast_nonneg _))⟩
        · have negative : -eagain < 0 := by decide
          omega
        · have here := Int.toNat_natCast (Table.pidAfter k.last d)
          have filled := Function.update_self (Table.pidAfter k.last d) (some (freshProcess old
            (Table.pidAfter k.last d) uid gid (initUserspace k.urp frame).1)) k.process
          rw [← table] at filled
          rw [here]
          refine ⟨Int.ofNat_lt.mpr (Table.pidAfter_lt k.last d), first.2.2.1,
            ⟨_, filled, rfl, owned rfl, ?_⟩, ?_⟩
          · change (initUserspace k.urp frame).1 = frame / 512
            unfold initUserspace
            rw [if_neg (owned rfl)]
          · intro slot other
            rw [table, Function.update_of_ne other]

/-- `process_create` does what it should exactly under the condition, for every table
and every value of the counter. -/
theorem process_create_right (k : Kernel) (uid gid : Int) (memory : Option Process) (frame : Nat) :
    k.CreateRight uid gid memory frame ↔ k.CreateMeets memory frame := by
  unfold CreateMeets
  by_cases full : k.process.Full
  · have noFree : (∀ d, k.process.FirstFree k.last d → k.last + d ≤ pidMax ∧
        ¬ Table.ComesRound k.last d ∧ (memory.isSome = true → frame ≠ 0)) :=
      fun d first => absurd first (Full.no_free full)
    by_cases small : 0 ≤ k.last ∧ k.last < maxProcesses
    · rw [create_refused uid gid (Table.slotSearch_full full small.1 small.2)]
      exact ⟨fun _ => ⟨fun _ => small, noFree⟩, fun _ => full⟩
    · have never : ¬ k.CreateRight uid gid memory frame :=
        create_stuck uid gid (Table.slotSearch_none full small)
      exact ⟨fun right => absurd right never, fun meets => absurd (meets.1 full) small⟩
  · obtain ⟨d, first⟩ := Table.firstFree_exists full k.last
    have only : ∀ e, k.process.FirstFree k.last e → e = d := by
      intro e other
      rcases Nat.lt_trichotomy e d with early | same | late
      · have occupied := first.2.2.2 e other.1 early
        rw [other.2.2.1] at occupied
        exact nomatch occupied
      · exact same
      · have occupied := other.2.2.2 d first.1 late
        rw [first.2.2.1] at occupied
        exact nomatch occupied
    have meets_iff : ((k.process.Full → 0 ≤ k.last ∧ k.last < maxProcesses) ∧
        ∀ d, k.process.FirstFree k.last d → k.last + d ≤ pidMax ∧
          ¬ Table.ComesRound k.last d ∧ (memory.isSome = true → frame ≠ 0)) ↔
        k.last + d ≤ pidMax ∧ ¬ Table.ComesRound k.last d ∧ (memory.isSome = true → frame ≠ 0) := by
      constructor
      · rintro ⟨-, all⟩
        exact all d first
      · intro good
        refine ⟨fun yes => absurd yes full, fun e other => ?_⟩
        rw [only e other]
        exact good
    rw [meets_iff]
    rcases Table.slotSearch_free_eq first with ⟨beyond, search⟩ | ⟨room, round, search⟩ |
      ⟨room, notRound, search⟩
    · exact ⟨fun right => absurd right (create_stuck uid gid search),
        fun good => absurd good.1 (Int.not_le.mpr beyond)⟩
    · rw [create_refused uid gid search]
      exact ⟨fun yes => absurd yes full, fun good => absurd round good.2.1⟩
    · rw [create_found uid gid first search]
      exact ⟨fun owned => ⟨room, notRound, owned⟩, fun good => good.2.2⟩

/-- Without a frame for its root the process is created all the same. -/
theorem created_without_frame :
    ¬ ∀ k, Reachable k → ∀ uid gid memory frame, k.CreateRight uid gid memory frame := by
  intro claim
  have right := claim bootKernel (.boot ⟨fun _ => rfl, rfl, rfl⟩) 0 0 (some blankProcess) 0
  have first : bootKernel.process.FirstFree bootKernel.last 1 :=
    ⟨Nat.le_refl 1, by decide, rfl, fun e low early => absurd low (Nat.not_le_of_lt early)⟩
  exact (((process_create_right _ _ _ _ _).mp right).2 1 first).2.2 rfl rfl

end Kernel

end TrollOS.Process
