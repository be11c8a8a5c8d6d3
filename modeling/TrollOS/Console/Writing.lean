import TrollOS.Mmu.UserCopies

/-!
# Writing to the console from user space

`fd_write` copies the user's buffer into its own, 512 bytes at a time, and hands each copy to
`kconsole_write`.
-/

namespace TrollOS.Console

open TrollOS.Lib Mmu Frames Action

@[irreducible] def chunkSize : Nat := 512

/-- `cnt`: what is left, but no more than `buff` holds. -/
def chunkCount (count j : Nat) : Nat :=
  if count - u32 (j * chunkSize) > chunkSize then chunkSize else count - u32 (j * chunkSize)

/-- The loop of `fd_write` for `fuel` tests of its condition: what it hands to `kconsole_write`.
`none` when it is still running. -/
def writeRounds (ptestr : Mmu → Nat → Nat) (buf count : Nat) : Nat → Nat → Action (Option (List (List UInt8)))
  | 0, _ => pure none
  | fuel + 1, j =>
      if u32 (j * chunkSize) < count then do
        let buff ← copyFromUserspace ptestr buf (chunkCount count j)
        let rest ← writeRounds ptestr buf count fuel (j + 1)
        pure (rest.map (buff :: ·))
      else pure (some [])

/-- `fd_write`: the value returned, and the writes to the console. -/
def fdWrite (ptestr : Mmu → Nat → Nat) (buf count fuel : Nat) : Action (Option (Int × List (List UInt8))) := do
  let chunks ← writeRounds ptestr buf count fuel 0
  pure (chunks.map fun written => (toInt32 count, written))

def userByte (m : Mmu) (frame : Nat → Nat) (buf i : Nat) : UInt8 := m.mem (place frame (u32 (buf + i)))

/-- The chunks are no larger than `buff`, and together they are the user's bytes in order. -/
def Preserved (bytes : List UInt8) (chunks : List (List UInt8)) : Prop :=
  (∀ chunk ∈ chunks, chunk.length ≤ chunkSize) ∧ chunks.flatten = bytes

section Rounds

variable {ptestr : Mmu → Nat → Nat} {frame : Nat → Nat} {m : Mmu} {buf count : Nat}

/-- A shorter buffer at the same address. -/
theorem resident_mono {size : Nat} (resident : Resident ptestr m frame buf count) (shorter : size ≤ count) :
    Resident ptestr m frame buf size := by
  intro m' same srp urp i below
  refine resident m' (fun a outside => same a fun inside => outside ?_) srp urp i (by omega)
  obtain ⟨k, inRange, here⟩ := List.mem_map.1 inside
  exact List.mem_map.2 ⟨k, List.mem_range.2 (Nat.lt_of_lt_of_le (List.mem_range.1 inRange) shorter), here⟩

theorem chunkCount_le (count j : Nat) : chunkCount count j ≤ count ∧ chunkCount count j ≤ chunkSize := by
  unfold chunkCount
  split <;> omega

/-- One chunk: it comes from the start of the buffer, whichever it is. -/
theorem chunk_ran (room : m.mapping < mapperPages) (small : buf < 4294967296)
    (resident : Resident ptestr m frame buf count) (j : Nat) :
    ∃ m', copyFromUserspace ptestr buf (chunkCount count j) m =
        some ((List.range (chunkCount count j)).map (userByte m frame buf), m') ∧
      m'.mem = m.mem ∧ m'.mapping < mapperPages ∧ Resident ptestr m' frame buf count := by
  obtain ⟨m', ran, mem, restored⟩ :=
    copyFromUserspace_ran room small (resident_mono resident (chunkCount_le count j).1)
  rw [map_places] at ran
  refine ⟨m', ran, mem, ?_, resident.agree (fun a _ => congrFun mem a) restored.srp restored.urp⟩
  rw [restored.mapping]
  exact room

/-- While the condition holds, a round hands on one chunk. -/
theorem writeRounds_step (room : m.mapping < mapperPages) (small : buf < 4294967296)
    (resident : Resident ptestr m frame buf count) {j : Nat} (more : u32 (j * chunkSize) < count) (fuel : Nat) :
    ∃ m', m'.mem = m.mem ∧ m'.mapping < mapperPages ∧ Resident ptestr m' frame buf count ∧
      writeRounds ptestr buf count (fuel + 1) j m = (do
        let rest ← writeRounds ptestr buf count fuel (j + 1)
        pure (rest.map ((List.range (chunkCount count j)).map (userByte m frame buf) :: ·)) :
          Action (Option (List (List UInt8)))) m' := by
  obtain ⟨m', ran, mem, room', resident'⟩ := chunk_ran room small resident j
  refine ⟨m', mem, room', resident', ?_⟩
  conv_lhs => unfold writeRounds
  rw [if_pos more, bind_of_some ran]

/-- The shifted counter never gets beyond 0xFFFFFE00, so a larger count keeps the loop running. -/
theorem writeRounds_never (large : 4294966784 < count) (room : m.mapping < mapperPages)
    (small : buf < 4294967296) (resident : Resident ptestr m frame buf count) (fuel j : Nat) :
    ∃ m', writeRounds ptestr buf count fuel j m = some (none, m') := by
  induction fuel generalizing m j with
  | zero => exact ⟨m, rfl⟩
  | succ fuel ih =>
      have more : u32 (j * chunkSize) < count := by
        unfold u32 chunkSize
        omega
      obtain ⟨m₁, -, room₁, resident₁, ran⟩ := writeRounds_step room small resident more fuel
      obtain ⟨m₂, rest⟩ := ih room₁ resident₁ (j + 1)
      refine ⟨m₂, ?_⟩
      rw [ran, bind_of_some rest]
      rfl

def repeated (byte : Nat → UInt8) (size : Nat) : List UInt8 :=
  (List.range size).map fun i => byte (i % chunkSize)

theorem repeated_zero (byte : Nat → UInt8) : repeated byte 0 = [] := rfl

theorem repeated_short (byte : Nat → UInt8) {size : Nat} (short : size ≤ chunkSize) :
    repeated byte size = (List.range size).map byte :=
  List.map_congr_left fun _ inRange => congrArg byte
    (Nat.mod_eq_of_lt (Nat.lt_of_lt_of_le (List.mem_range.1 inRange) short))

theorem repeated_long (byte : Nat → UInt8) (size : Nat) :
    repeated byte (chunkSize + size) = (List.range chunkSize).map byte ++ repeated byte size := by
  rw [← repeated_short byte (Nat.le_refl chunkSize)]
  unfold repeated
  rw [List.range_add, List.map_append, List.map_map]
  congr 1
  exact List.map_congr_left fun i _ => congrArg byte (Nat.add_mod_left chunkSize i)

/-- The chunk of round `j` before those of the later rounds. -/
theorem repeated_chunk (byte : Nat → UInt8) {j : Nat} (more : j * chunkSize < count)
    (below : count ≤ 4294966784) :
    repeated byte (count - j * chunkSize) = (List.range (chunkCount count j)).map byte ++
      repeated byte (count - (j + 1) * chunkSize) := by
  have shifted : u32 (j * chunkSize) = j * chunkSize := u32_eq (by omega)
  have next : (j + 1) * chunkSize = j * chunkSize + chunkSize := Nat.succ_mul j chunkSize
  unfold chunkCount
  rw [shifted, next]
  by_cases long : count - j * chunkSize > chunkSize
  · rw [if_pos long, ← repeated_long]
    congr 1
    omega
  · have last : count - (j * chunkSize + chunkSize) = 0 := by omega
    rw [if_neg long, repeated_short byte (by omega), last, repeated_zero, List.append_nil]

theorem chunkSize_pos : 0 < chunkSize := by decide +kernel

theorem fuel_step {fuel left : Nat} (enough : fuel * chunkSize < left - chunkSize + chunkSize)
    (more : 0 < left) : (fuel + 1) * chunkSize < left + chunkSize := by
  rw [Nat.succ_mul]
  by_cases long : chunkSize ≤ left
  · omega
  · rw [Nat.sub_eq_zero_of_le (Nat.le_of_not_le long), Nat.zero_add] at enough
    have none' : fuel = 0 := by
      by_contra some'
      have whole := Nat.le_mul_of_pos_left chunkSize (Nat.pos_of_ne_zero some')
      omega
    rw [none']
    omega

/-- The first round is within reach. -/
theorem first_reached (count : Nat) : 0 * chunkSize < count + chunkSize := by
  rw [Nat.zero_mul]
  exact Nat.lt_of_lt_of_le chunkSize_pos (Nat.le_add_left _ _)

/-- Up to a count of 0xFFFFFE00 the loop ends, and has handed on the first bytes over and over. -/
theorem writeRounds_ran (below : count ≤ 4294966784) (room : m.mapping < mapperPages)
    (small : buf < 4294967296) (resident : Resident ptestr m frame buf count) (fuel j : Nat)
    (reached : j * chunkSize < count + chunkSize) :
    ∃ result m', writeRounds ptestr buf count fuel j m = some (result, m') ∧
      (result = none → fuel * chunkSize < count - j * chunkSize + chunkSize) ∧
      ∀ chunks, result = some chunks →
        Preserved (repeated (userByte m frame buf) (count - j * chunkSize)) chunks := by
  induction fuel generalizing m j with
  | zero =>
      have positive := chunkSize_pos
      exact ⟨none, m, rfl, fun _ => by omega, fun chunks same => absurd same.symm (Option.some_ne_none _)⟩
  | succ fuel ih =>
      have shifted : u32 (j * chunkSize) = j * chunkSize := by
        refine u32_eq ?_
        unfold chunkSize at reached ⊢
        omega
      have next : (j + 1) * chunkSize = j * chunkSize + chunkSize := Nat.succ_mul j chunkSize
      by_cases more : j * chunkSize < count
      · obtain ⟨m₁, mem, room₁, resident₁, ran⟩ :=
          writeRounds_step room small resident (shifted.symm ▸ more) fuel
        obtain ⟨result, m₂, rest, running, ended⟩ := ih room₁ resident₁ (j + 1) (by omega)
        have bytes : userByte m₁ frame buf = userByte m frame buf := by
          funext i
          exact congrFun mem _
        rw [bind_of_some rest] at ran
        refine ⟨_, m₂, ran, fun same => ?_, fun chunks same => ?_⟩
        · have left := running (Option.map_eq_none_iff.1 same)
          rw [next, Nat.sub_add_eq] at left
          exact fuel_step left (Nat.sub_pos_of_lt more)
        · obtain ⟨later, here, consed⟩ := Option.map_eq_some_iff.1 same
          obtain ⟨short, flat⟩ := ended later here
          rw [bytes] at flat
          subst consed
          constructor
          · intro chunk member
            rcases List.mem_cons.1 member with first | member
            · rw [first, List.length_map, List.length_range]
              exact (chunkCount_le count j).2
            · exact short chunk member
          · rw [List.flatten_cons, flat, repeated_chunk (userByte m frame buf) more below]
      · have done : count - j * chunkSize = 0 := by omega
        refine ⟨some [], m, ?_, fun same => absurd same (Option.some_ne_none _), fun chunks same => ?_⟩
        · unfold writeRounds
          rw [shifted, if_neg more]
          rfl
        · rw [done, ← Option.some.inj same]
          exact ⟨fun chunk member => absurd member List.not_mem_nil, rfl⟩

/-- The loop with fuel for every chunk. -/
theorem writeRounds_ends (below : count ≤ 4294966784) (room : m.mapping < mapperPages)
    (small : buf < 4294967296) (resident : Resident ptestr m frame buf count) :
    ∃ chunks m', writeRounds ptestr buf count (count + 1) 0 m = some (some chunks, m') ∧
      Preserved (repeated (userByte m frame buf) count) chunks := by
  obtain ⟨result, m', ran, running, ended⟩ := writeRounds_ran below room small resident (count + 1) 0
    (first_reached count)
  rw [Nat.zero_mul, Nat.sub_zero] at running ended
  cases result with
  | none =>
      have short := running rfl
      rw [Nat.succ_mul] at short
      have all := Nat.le_mul_of_pos_right count chunkSize_pos
      omega
  | some chunks => exact ⟨chunks, m', ran, ended chunks rfl⟩

/-- What `fd_write` returns comes from its loop. -/
theorem fdWrite_returned {fuel : Nat} {code : Int} {chunks : List (List UInt8)} {result : Option (List (List UInt8))}
    {m' m₂ : Mmu} (looped : writeRounds ptestr buf count fuel 0 m = some (result, m₂))
    (ran : fdWrite ptestr buf count fuel m = some (some (code, chunks), m')) : result = some chunks := by
  unfold fdWrite at ran
  rw [bind_of_some looped] at ran
  have returned : (result.map fun written => (toInt32 count, written)) = some (code, chunks) :=
    congrArg Prod.fst (Option.some.inj ran)
  obtain ⟨written, here, same⟩ := Option.map_eq_some_iff.1 returned
  rw [here, (Prod.mk.inj same).2]

theorem repeated_eq_iff (byte : Nat → UInt8) (size : Nat) :
    repeated byte size = (List.range size).map byte ↔ ∀ i < size, byte i = byte (i % chunkSize) := by
  unfold repeated
  rw [List.map_inj_left]
  constructor
  · intro same i below
    exact (same i (List.mem_range.2 below)).symm
  · intro same i inRange
    exact (same i (List.mem_range.1 inRange)).symm

/-- `fd_write` hands on the user's bytes exactly when its counter can pass the count and the buffer
repeats its first 512 bytes. -/
theorem fdWrite_preserves_iff (room : m.mapping < mapperPages) (small : buf < 4294967296)
    (resident : Resident ptestr m frame buf count) :
    (∃ fuel code chunks m', fdWrite ptestr buf count fuel m = some (some (code, chunks), m') ∧
        Preserved ((List.range count).map (userByte m frame buf)) chunks) ↔
      count ≤ 4294966784 ∧
        ∀ i < count, userByte m frame buf i = userByte m frame buf (i % chunkSize) := by
  constructor
  · rintro ⟨fuel, code, chunks, m', ran, -, flat⟩
    have below : count ≤ 4294966784 := by
      by_contra large
      obtain ⟨m₂, runs⟩ := writeRounds_never (Nat.lt_of_not_le large) room small resident fuel 0
      exact absurd (fdWrite_returned runs ran).symm (Option.some_ne_none _)
    refine ⟨below, (repeated_eq_iff _ count).1 ?_⟩
    obtain ⟨result, m₂, runs, -, ended⟩ := writeRounds_ran below room small resident fuel 0
      (first_reached count)
    rw [Nat.zero_mul, Nat.sub_zero] at ended
    rw [← flat, (ended chunks (fdWrite_returned runs ran)).2]
  · rintro ⟨below, same⟩
    obtain ⟨chunks, m', ran, kept⟩ := writeRounds_ends below room small resident
    refine ⟨count + 1, toInt32 count, chunks, m', ?_, ?_⟩
    · unfold fdWrite
      rw [bind_of_some ran]
      rfl
    · rw [← (repeated_eq_iff _ count).2 same]
      exact kept

end Rounds

/-- Two bytes on two pages. -/
theorem fdWrite_preserves_two : ∃ fuel code chunks m',
    fdWrite (fun _ => swappedPages) 8191 2 fuel emptyWindow = some (some (code, chunks), m') ∧
      Preserved [0, 0] chunks :=
  (@fdWrite_preserves_iff (fun _ => swappedPages) (fun n => swappedPages (n * pageSize)) emptyWindow 8191 2
    (by decide) (by decide) swappedPages_resident).2 ⟨by decide, fun _ _ => rfl⟩

/-- A page that is its own frame, zero but for its byte 512. -/
def markedPage : Mmu := { emptyWindow with mem := fun a => if a = 4608 then 1 else 0 }

theorem markedPage_resident (count : Nat) :
    Resident (fun _ v => v) markedPage (fun n => n * pageSize) 4096 count :=
  fun _ _ _ _ _ _ => rfl

/-- The last byte of 513 is lost. -/
theorem last_byte_lost : Resident (fun _ v => v) markedPage (fun n => n * pageSize) 4096 513 ∧
    ¬ ∃ fuel code chunks m', fdWrite (fun _ v => v) 4096 513 fuel markedPage = some (some (code, chunks), m') ∧
      Preserved ((List.range 513).map (userByte markedPage (fun n => n * pageSize) 4096)) chunks := by
  refine ⟨markedPage_resident 513, ?_⟩
  rintro ⟨fuel, code, chunks, m', ran, -, flat⟩
  obtain ⟨result, m₂, runs, -, ended⟩ := writeRounds_ran (show 513 ≤ 4294966784 by decide)
    (show markedPage.mapping < mapperPages by decide) (by decide) (markedPage_resident 513) fuel 0
    (first_reached 513)
  rw [Nat.zero_mul, Nat.sub_zero] at ended
  have handed := (ended chunks (fdWrite_returned runs ran)).2
  rw [flat] at handed
  have last := (repeated_eq_iff (userByte markedPage (fun n => n * pageSize) 4096) 513).1 handed.symm
    512 (Nat.lt_succ_self 512)
  exact absurd last (by decide +kernel)

end TrollOS.Console
