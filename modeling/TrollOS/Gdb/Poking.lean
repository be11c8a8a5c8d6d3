import TrollOS.Gdb.Resuming

/-!
# Writing to memory and looking at it

What an `M` has written is what an `m` behind it shows, and what the program finds.
-/

namespace TrollOS.Gdb

open TrollOS.Lib ByteMem Stub

section Cells

structure Holds (memory : ByteMem) (mem : Nat) (bytes : List UInt8) : Prop where
  cell : ∀ i, (within : i < bytes.length) → memory (u32 (mem + i)) = bytes[i]

theorem Holds.gather (present : Nat → Bool) {t : Target} {mem : Nat} {bytes : List UInt8}
    (there : ∀ i < bytes.length, present (u32 (mem + i)) = true) (holds : Holds t.memory mem bytes)
    (small : mem < 4294967296) : gather (t.peek present) bytes.length mem = some bytes := by
  induction bytes generalizing mem with
  | nil => rfl
  | cons byte bytes ih =>
      have here : t.peek present mem = some byte := by
        have first := holds.cell 0 (Nat.zero_lt_succ _)
        have mapped := there 0 (Nat.zero_lt_succ _)
        rw [Nat.add_zero, u32_eq small] at first mapped
        unfold Target.peek
        rw [if_pos mapped, first]
        rfl
      have later : Gdb.gather (t.peek present) bytes.length (u32 (mem + 1)) = some bytes := by
        refine ih (fun i within => ?_) ⟨fun i within => ?_⟩ (u32_lt _)
        · rw [u32_next]
          exact there (i + 1) (Nat.succ_lt_succ within)
        · rw [u32_next]
          exact holds.cell (i + 1) (Nat.succ_lt_succ within)
      rw [List.length_cons, Gdb.gather, here, Option.bind_some, later]
      rfl

/-- All bytes are written, and nothing else. -/
theorem scatter_all (present : Nat → Bool) (memory : ByteMem) {mem : Nat} {bytes : List UInt8}
    (there : ∀ i < bytes.length, present (u32 (mem + i)) = true) (small : mem < 4294967296)
    (few : bytes.length ≤ 4294967296) : ∃ memory', scatter present memory mem bytes = (true, memory') ∧
      Holds memory' mem bytes ∧ ∀ a, (∀ i < bytes.length, a ≠ u32 (mem + i)) → memory' a = memory a := by
  induction bytes generalizing mem memory with
  | nil => exact ⟨memory, rfl, ⟨fun i within => absurd within (Nat.not_lt_zero i)⟩, fun _ _ => rfl⟩
  | cons byte bytes ih =>
      rw [List.length_cons] at few
      have mapped := there 0 (Nat.zero_lt_succ _)
      rw [Nat.add_zero, u32_eq small] at mapped
      have later (i : Nat) (within : i < bytes.length) : present (u32 (u32 (mem + 1) + i)) = true := by
        rw [u32_next]
        exact there (i + 1) (Nat.succ_lt_succ within)
      obtain ⟨memory', ran, holds, kept⟩ := ih (Function.update memory mem byte) later (u32_lt _) (by omega)
      refine ⟨memory', ?_, ⟨fun i within => ?_⟩, fun a off => ?_⟩
      · rw [scatter, if_pos mapped]
        exact ran
      · cases i with
        | zero =>
            rw [Nat.add_zero, u32_eq small, kept mem fun i inside => ?_, Function.update_self]
            · rfl
            · rw [u32_next]
              unfold u32
              omega
        | succ i =>
            rw [← u32_next]
            exact holds.cell i (Nat.lt_of_succ_lt_succ within)
      · have first := off 0 (Nat.zero_lt_succ _)
        rw [Nat.add_zero, u32_eq small] at first
        rw [kept a fun i within => ?_, Function.update_of_ne first]
        rw [u32_next]
        exact off (i + 1) (Nat.succ_lt_succ within)

end Cells

section Packets

/-- The numbers of an `m` and an `M` are those of an `int`. -/
theorem pair_next (malformed : Command) (next : Nat → Nat → List UInt8 → Command) (text : List UInt8) :
    pair malformed text next = malformed ∨ ∃ addr count rest, addr < 4294967296 ∧ count < 2147483648 ∧
      pair malformed text next = next addr count rest := by
  unfold pair
  split
  · exact Or.inl rfl
  · split
    · exact Or.inl rfl
    · split
      · exact Or.inl rfl
      · refine Or.inr ⟨_, _, _, u32_lt _, ?_, rfl⟩
        have small : value (behind text).tail < 4294967296 := u32_lt _
        unfold countOf toInt32
        split
        · omega
        · omega

theorem parse_write {payload text : List UInt8} {addr count : Nat}
    (writes : Command.parse payload = .write addr count text) : addr < 4294967296 ∧ count < 2147483648 := by
  unfold Command.parse at writes
  dsimp only at writes
  split at writes
  · cases writes
  · split at writes
    · cases writes
    · split at writes
      · cases writes
      · split at writes
        · cases writes
        · split at writes
          · rcases pair_next (.malformed false) (fun addr count _ => .read addr count) payload.tail with
              same | ⟨addr', count', rest, -, -, same⟩
            · rw [same] at writes
              cases writes
            · rw [same] at writes
              cases writes
          · split at writes
            · rcases pair_next (.malformed true) (fun addr count rest =>
                  if rest.headD 0 ≠ ':'.toUInt8 then .malformed true else .write addr count rest.tail)
                payload.tail with same | ⟨addr', count', rest, small, few, same⟩
              · rw [same] at writes
                cases writes
              · rw [same] at writes
                split at writes
                · cases writes
                · cases writes
                  exact ⟨small, few⟩
            · split at writes
              · cases writes
              · split at writes
                · cases writes
                · cases writes

end Packets

section Poke

variable {present : Nat → Bool} {addr count : Nat} {text : List UInt8}

theorem Target.react_answer {sigval : Nat} {t t' : Target} {q : Query} {command : Command} {reply : List UInt8}
    (asks : Command.parse q.payload = command) (answers : t.answer present sigval command = (reply, t')) :
    t.react present sigval q = (q.echo reply, t') := by
  unfold react
  rw [asks, answers]

/-- What a packet writes to memory that is there. -/
theorem Target.poked (sigval : Nat) (t : Target) {q : Query} (writes : Command.parse q.payload = .write addr count text)
    (enough : 2 * count ≤ text.length) (there : ∀ i < count, present (u32 (addr + i)) = true) :
    ∃ memory, t.react present sigval q = (q.echo ok, { t with memory := memory }) ∧
      Holds memory addr (decoded (text.take (2 * count))) ∧
      ∀ a, (∀ i < count, a ≠ u32 (addr + i)) → memory a = t.memory a := by
  obtain ⟨small, few⟩ := parse_write writes
  have length : (decoded (text.take (2 * count))).length = count :=
    decoded_length (List.length_take_of_le enough)
  rw [← length] at there
  obtain ⟨memory, stored, holds, kept⟩ := scatter_all present t.memory there small (by omega)
  rw [length] at kept
  exact ⟨memory, react_answer writes (answer_write sigval stored), holds, kept⟩

/-- What has been written is read behind any packets that do not write. -/
theorem Target.peeked (sigval : Nat) (t : Target) (before : List Query) {between : List Query} {q₁ q₂ : Query}
    (writes : Command.parse q₁.payload = .write addr count text) (enough : 2 * count ≤ text.length)
    (there : ∀ i < count, present (u32 (addr + i)) = true)
    (looks : ∀ q ∈ between, (Command.parse q.payload).Looks)
    (reads : Command.parse q₂.payload = .read addr count) : ∃ replies t',
    Sessions.run (react present sigval) t (before ++ q₁ :: (between ++ [q₂])) =
        (replies ++ [q₂.echo (hexOf (decoded (text.take (2 * count))))], t') ∧
      Holds t'.memory addr (decoded (text.take (2 * count))) := by
  have length : (decoded (text.take (2 * count))).length = count :=
    decoded_length (List.length_take_of_le enough)
  rcases first : Sessions.run (react present sigval) t before with ⟨replies, t₁⟩
  obtain ⟨memory, poked, holds, -⟩ := t₁.poked sigval writes enough there
  have held : (Sessions.run (react present sigval) { t₁ with memory := memory } between).2 =
      { t₁ with memory := memory } := Sessions.run_fixed fun q member => (looks q member).answer sigval _
  rcases second : Sessions.run (react present sigval) { t₁ with memory := memory } between with ⟨replies', t₂⟩
  rw [second] at held
  cases held
  rw [← length] at there
  have found := Holds.gather present (t := { t₁ with memory := memory }) there holds (parse_write writes).1
  rw [length] at found
  refine ⟨replies ++ q₁.echo ok :: replies', { t₁ with memory := memory }, ?_, holds⟩
  rw [Sessions.run_append, first, Sessions.run_cons, poked, Sessions.run_append, second, Sessions.run_cons,
    react_answer reads (answer_read sigval found), Sessions.run_nil]
  simp only [List.append_assoc, List.cons_append]

variable {states : Set (List UInt32)} {image : Image} {s : Stub}

/-- The reply to the last question is the last one. -/
theorem Visit.echo_last (v : Visit) {e : Exception} {t : Target} {replies : List (List UInt8)}
    {last : List UInt8} (answers : (v.session present e t).1 = replies ++ [last]) :
    ∃ earlier, v.echo present e t = earlier ++ last ++ ['+'.toUInt8] := by
  unfold echo
  rw [answers, List.flatten_append, List.flatten_singleton, ← List.append_assoc]
  exact ⟨_, rfl⟩

/-- `M10,1:41`, and then `m10,1`. -/
def poking : Visit :=
  ⟨[], [⟨[], [77, 49, 48, 44, 49, 58, 52, 49], []⟩, ⟨[], [109, 49, 48, 44, 49], []⟩], [], false, []⟩

theorem poking_sound : poking.Sound lowImage where
  refused := by decide
  queries q member := by
    rcases List.mem_cons.1 member with rfl | last
    · exact ⟨by decide, ⟨by decide, by decide, by decide⟩, by decide, by decide, by decide,
        ⟨show 2 * 1 ≤ 2 by decide, show ∀ i < 1, lowImage.own (u32 (16 + i)) = false by decide⟩⟩
    · rw [List.mem_singleton.1 last]
      exact ⟨by decide, ⟨by decide, by decide, by decide⟩, by decide, by decide, by decide,
        ⟨show 2 * 1 < bufmax by decide, show ∀ i < 1, lowImage.own (u32 (16 + i)) = false by decide⟩⟩
  idle := by decide
  plain := ⟨by decide, by decide, by decide⟩
  nonzero := by decide
  unnumbered := by decide

theorem poking_resumed (t : Target) : (poking.resumed (fun _ => true) breakpoint t []).pc = 4098 := by
  have program := congrArg Context.pc (contextOf_saved t.registers breakpoint_valid.fpu)
  exact program

end Poke

/-! ## Too much at once -/

section Overruns

variable {states : Set (List UInt32)} {image : Image} {base : Nat} {s : Stub} {present : Nat → Bool}
  {addr count : Nat}

theorem parse_read {payload : List UInt8} (reads : Command.parse payload = .read addr count) :
    ∃ text, payload = 'm'.toUInt8 :: text ∧ addr < 4294967296 ∧
      (pair (.malformed false) text fun addr count _ => .read addr count) = .read addr count := by
  cases payload with
  | nil => cases reads
  | cons ch text =>
      unfold Command.parse at reads
      dsimp only [List.headD_cons, List.tail_cons] at reads
      split at reads
      · cases reads
      · split at reads
        · cases reads
        · split at reads
          · cases reads
          · split at reads
            · cases reads
            · split at reads
              · rename_i letter
                rcases pair_next (.malformed false) (fun addr count _ => .read addr count) text with
                  same | ⟨addr', count', rest, small, -, same⟩
                · rw [same] at reads
                  cases reads
                · have number := same.symm.trans reads
                  cases number
                  exact ⟨text, by rw [letter], small, reads⟩
              · split at reads
                · rcases pair_next (.malformed true) (fun addr count rest =>
                      if rest.headD 0 ≠ ':'.toUInt8 then .malformed true else .write addr count rest.tail)
                    text with same | ⟨addr', count', rest, -, -, same⟩
                  · rw [same] at reads
                    cases reads
                  · rw [same] at reads
                    split at reads
                    · cases reads
                    · cases reads
                · split at reads
                  · cases reads
                  · split at reads
                    · cases reads
                    · cases reads

/-- The digits go past `remcomOutBuffer`. -/
theorem peekMemory_overruns {length : Nat} (there : (gather (s.target.peek present) (countOf length) addr).isSome)
    (full : bufmax ≤ 2 * countOf length) : s.guarded.peekMemory image present addr length = .overrun := by
  rcases ran : mem2hex (s.target.peek present) (countOf length) addr 0 s.outBuffer with ⟨how, out⟩
  have ends : (mem2hex (s.target.peek present) (countOf length) addr 0 s.outBuffer).1 = .overrun :=
    mem2hex_overrun s.outBuffer there (by omega) rfl
  rw [ran] at ends
  dsimp only at ends
  rw [peekMemory_ran addr length ran, ends]
  rfl

variable (image present) in
theorem dispatch_overruns (sigval : Nat) {payload : List UInt8} (found : TextAt s.inBuffer 0 payload)
    (nonzero : 0 ∉ payload) (fits : payload.length < bufmax)
    (reads : Command.parse payload = .read addr count)
    (there : (gather (s.target.peek present) count addr).isSome) (full : bufmax ≤ 2 * count) :
    s.dispatch image present sigval 0 = .overrun := by
  obtain ⟨text, rfl, -, same⟩ := parse_read reads
  have letter : s.cleared.inBuffer 0 = 'm'.toUInt8 := found.1
  have later : TextAt s.cleared.inBuffer 1 text := found.2
  rw [List.length_cons] at fits
  have command : s.dispatch image present sigval 0 = s.cleared.readMemory image present 1 := by
    unfold dispatch
    dsimp only
    rw [letter]
    rfl
  rw [command]
  rcases readMemory_syntax image present later (fun member => nonzero (List.mem_cons_of_mem _ member)) (by omega) with
    ⟨-, malformed⟩ | ⟨addr', length, -, ran, read⟩
  · rw [same] at malformed
    cases malformed
  · rw [same] at read
    cases read
    rw [ran]
    exact peekMemory_overruns there full

/-- A packet that asks for more than `remcomOutBuffer` has room for ends the debugger, whatever came
before it in the visit. -/
theorem Ready.overruns (ready : Ready states base s) {e : Exception} (valid : e.Valid) {refusals noise payload : List UInt8}
    {queries : List Query} (refused : '+'.toUInt8 ∉ refusals) (sound : ∀ q ∈ queries, q.Sound image)
    (idle : '$'.toUInt8 ∉ noise) (plain : Plain payload) (nonzero : 0 ∉ payload)
    (unnumbered : payload[2]? ≠ some ':'.toUInt8) (reads : Command.parse payload = .read addr count)
    (there : ∀ i < count, present (u32 (addr + i)) = true) (full : bufmax ≤ 2 * count) (rest : List UInt8) :
    handleException image present s e
      (refusals ++ '+'.toUInt8 :: (queries.flatMap Query.bytes ++ (noise ++ frame payload ++ rest))) = .overrun := by
  obtain ⟨-, -, small, -⟩ := parse_read reads
  obtain ⟨k, asked, ran, answered⟩ := ready.asks present valid refused sound
    (show noise ++ frame payload ++ rest ≠ [] by simp [frame])
  obtain ⟨buffer, got, stored, -⟩ := getIn_frame idle plain unnumbered answered.unnumbered rest
  have short := plain.short
  have cells : Holds asked.memory addr ((List.range count).map fun i => asked.memory (u32 (addr + i))) := by
    refine ⟨fun i within => ?_⟩
    rw [List.getElem_map, List.getElem_range]
  have found := Holds.gather present (t := asked.target)
    (by rw [List.length_map, List.length_range]; exact there) cells small
  rw [List.length_map, List.length_range] at found
  have ends := dispatch_overruns image present (s := asked.heard buffer)
    (computeSignal e.vector) stored.text nonzero (by omega) reads (Option.isSome_iff_exists.2 ⟨_, found⟩) full
  rw [ran, serve, got, Served.andThen_done]
  dsimp only
  rw [ends]

theorem overruns_page : handleException lowImage (fun _ => true)
    (initializeRemcomErrorFrame lowImage.base cleanStart) breakpoint
    ([] ++ '+'.toUInt8 :: (([] : List Query).flatMap Query.bytes ++ ([] ++ frame [109, 48, 44, 99, 56] ++ []))) =
      .overrun :=
  Ready.overruns (initialize_ready Set.univ) breakpoint_valid (by decide)
    (fun q member => absurd member List.not_mem_nil) (by decide) ⟨by decide, by decide, by decide⟩ (by decide)
    (by decide) (show Command.parse [109, 48, 44, 99, 56] = .read 0 200 from rfl) (fun _ _ => rfl) (by decide) []

end Overruns

end TrollOS.Gdb
