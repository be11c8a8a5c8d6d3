import TrollOS.Gdb.Model

/-!
# Framing

What `getpacket` accepts, and what it does with a packet and with a damaged copy of one.
-/

namespace TrollOS.Gdb

open TrollOS.Lib

def checksum (payload : List UInt8) : UInt8 := payload.foldl (· + ·) 0

def frame (payload : List UInt8) : List UInt8 :=
  '$'.toUInt8 :: payload ++
    ['#'.toUInt8, hexchars ((checksum payload).toNat / 16), hexchars ((checksum payload).toNat % 16)]

/-- What can stand between `'$'` and `'#'`: no delimiter, and room for the NUL. -/
structure Plain (payload : List UInt8) : Prop where
  opener : '$'.toUInt8 ∉ payload
  closer : '#'.toUInt8 ∉ payload
  short : payload.length < bufmax - 1

structure Stored (buffer : ByteMem) (payload : List UInt8) : Prop where
  chars : ∀ i, (within : i < payload.length) → buffer i = payload[i]
  ends : buffer payload.length = 0

/-- The text that begins at `ptr`, with its NUL. -/
def TextAt (buffer : ByteMem) : Nat → List UInt8 → Prop
  | ptr, [] => buffer ptr = 0
  | ptr, ch :: text => buffer ptr = ch ∧ TextAt buffer (ptr + 1) text

theorem TextAt.skip {buffer : ByteMem} {ptr : Nat} {first rest : List UInt8}
    (text : TextAt buffer ptr (first ++ rest)) : TextAt buffer (ptr + first.length) rest := by
  induction first generalizing ptr with
  | nil => exact text
  | cons ch first ih =>
      have later := ih text.2
      rwa [Nat.add_right_comm] at later

theorem TextAt.char {buffer : ByteMem} {ptr : Nat} {text : List UInt8} (found : TextAt buffer ptr text) :
    buffer ptr = text.headD 0 := by
  cases text with
  | nil => exact found
  | cons ch text => exact found.1

theorem Stored.text {buffer : ByteMem} {payload : List UInt8} (stored : Stored buffer payload) :
    TextAt buffer 0 payload := by
  have from' (done more : List UInt8) (split : payload = done ++ more) :
      TextAt buffer done.length more := by
    induction more generalizing done with
    | nil =>
        rw [List.append_nil] at split
        subst split
        exact stored.ends
    | cons ch more ih =>
        have within : done.length < payload.length := by
          rw [split, List.length_append, List.length_cons]
          omega
        refine ⟨?_, ?_⟩
        · rw [stored.chars _ within]
          simp only [split, List.getElem_append_right (Nat.le_refl _), Nat.sub_self,
            List.getElem_cons_zero]
        · have later := ih (done ++ [ch]) (by rw [split, List.append_assoc]; rfl)
          rwa [List.length_append, List.length_singleton] at later
  exact from' [] payload rfl

/-- A copy that lost its meaning on the way but not its delimiters. -/
structure Damaged (copy : List UInt8) (noise body : List UInt8) (high low : UInt8) : Prop where
  split : copy = noise ++ '$'.toUInt8 :: body ++ ['#'.toUInt8, high, low]
  idle : '$'.toUInt8 ∉ noise
  plain : Plain body
  /-- It does not look like a packet with a sequence number. -/
  unnumbered : body[2]? ≠ some ':'.toUInt8
  wrong : checksum body ≠ hexByte high low

theorem checksum_append (payload : List UInt8) (ch : UInt8) :
    checksum (payload ++ [ch]) = checksum payload + ch :=
  List.foldl_append

theorem hexByte_digits : ∀ n < 256, hexByte (hexchars (n / 16)) (hexchars (n % 16)) = UInt8.ofNat n := by
  decide +kernel

/-- The digits `hexchars` gives for a byte are read back as that byte. -/
theorem hexByte_hexchars (byte : UInt8) :
    hexByte (hexchars (byte.toNat / 16)) (hexchars (byte.toNat % 16)) = byte := by
  rw [hexByte_digits _ byte.toNat_lt, UInt8.ofNat_toNat]

/-! ## One character at a time -/

/-- `getpacket` reads these bytes and goes on. -/
inductive Reads : Receiver → List UInt8 → Receiver → Prop where
  | nil (r : Receiver) : Reads r [] r
  | cons {r next last : Receiver} {ch : UInt8} {bytes : List UInt8} (step : r.byte ch = (next, none))
      (rest : Reads next bytes last) : Reads r (ch :: bytes) last

theorem Reads.append {r next last : Receiver} {bytes more : List UInt8} (first : Reads r bytes next)
    (second : Reads next more last) : Reads r (bytes ++ more) last := by
  induction first with
  | nil r => exact second
  | cons step rest ih => exact Reads.cons step (ih second)

theorem getpacket_reads {r next : Receiver} {bytes : List UInt8} (reads : Reads r bytes next)
    (input : List UInt8) : getpacket r (bytes ++ input) = getpacket next input := by
  induction reads with
  | nil r => rfl
  | cons step rest ih =>
      rw [List.cons_append, getpacket, step]
      exact ih

section Byte

variable {buffer : ByteMem} {sent : List UInt8}

theorem byte_start {ch : UInt8} (other : ch ≠ '$'.toUInt8) :
    Receiver.byte ⟨.start, buffer, sent⟩ ch = (⟨.start, buffer, sent⟩, none) := by
  unfold Receiver.byte
  dsimp only
  rw [if_neg other]

theorem byte_open (r : Receiver) (ready : r.reading = .start ∨ ∃ count sum, r.reading = .body count sum) :
    r.byte '$'.toUInt8 = ({ r with reading := .body 0 0 }, none) := by
  obtain ⟨reading, buffer, sent⟩ := r
  rcases ready with rfl | ⟨count, sum, rfl⟩
  · rfl
  · rfl

theorem byte_close (count : Nat) (sum : UInt8) :
    Receiver.byte ⟨.body count sum, buffer, sent⟩ '#'.toUInt8 =
      (⟨.high sum, Function.update buffer count 0, sent⟩, none) := rfl

theorem byte_store {count : Nat} {sum ch : UInt8} (opener : ch ≠ '$'.toUInt8) (closer : ch ≠ '#'.toUInt8) :
    Receiver.byte ⟨.body count sum, buffer, sent⟩ ch =
      (Receiver.store ⟨.body count sum, buffer, sent⟩ count sum ch, none) := by
  unfold Receiver.byte
  dsimp only
  rw [if_neg opener, if_neg closer]

theorem store_room {r : Receiver} {count : Nat} (room : count + 1 < bufmax - 1) (sum ch : UInt8) :
    r.store count sum ch =
      ⟨.body (count + 1) (sum + ch), Function.update r.buffer count ch, r.sent⟩ := by
  unfold Receiver.store
  rw [if_pos room]

theorem store_full {r : Receiver} {count : Nat} (full : ¬ count + 1 < bufmax - 1) (sum ch : UInt8) :
    r.store count sum ch =
      ⟨.start, Function.update (Function.update r.buffer count ch) (count + 1) 0, r.sent⟩ := by
  unfold Receiver.store
  rw [if_neg full]

theorem byte_wrong {sum high low : UInt8} (wrong : sum ≠ hexByte high low) :
    Receiver.byte ⟨.low sum high, buffer, sent⟩ low = (⟨.start, buffer, sent ++ ['-'.toUInt8]⟩, none) := by
  unfold Receiver.byte
  dsimp only
  rw [if_pos wrong]
  rfl

theorem byte_right (buffer : ByteMem) (sent : List UInt8) (high low : UInt8) :
    Receiver.byte ⟨.low (hexByte high low) high, buffer, sent⟩ low =
      Receiver.accept ⟨.low (hexByte high low) high, buffer, sent⟩ := by
  unfold Receiver.byte
  dsimp only
  rw [if_neg (not_not.2 rfl)]

theorem accept_plain {reading : Reading} (unnumbered : buffer 2 ≠ ':'.toUInt8) :
    Receiver.accept ⟨reading, buffer, sent⟩ = (⟨.start, buffer, sent ++ ['+'.toUInt8]⟩, some 0) := by
  unfold Receiver.accept
  exact if_neg unnumbered

end Byte

/-! ## What is accepted -/

/-- What has been on the line when nothing has been accepted yet, with the number of packets refused:
bytes between packets, packets cut off by the `'$'` of the next one (`cut` says that it must come now),
packets that do not end in time, and packets with a wrong checksum. -/
inductive Heard : (cut : Bool) → (past : List UInt8) → (refused : Nat) → Prop where
  | nothing : Heard false [] 0
  | idle {past : List UInt8} {refused : Nat} {ch : UInt8} (heard : Heard false past refused)
      (other : ch ≠ '$'.toUInt8) : Heard false (past ++ [ch]) refused
  | cut {opened : Bool} {past payload : List UInt8} {refused : Nat} (heard : Heard opened past refused)
      (plain : Plain payload) : Heard true (past ++ '$'.toUInt8 :: payload) refused
  | long {opened : Bool} {past payload : List UInt8} {refused : Nat} (heard : Heard opened past refused)
      (opener : '$'.toUInt8 ∉ payload) (closer : '#'.toUInt8 ∉ payload)
      (full : payload.length = bufmax - 1) : Heard false (past ++ '$'.toUInt8 :: payload) refused
  | refused {opened : Bool} {past payload : List UInt8} {refused : Nat} {high low : UInt8}
      (heard : Heard opened past refused) (plain : Plain payload)
      (wrong : checksum payload ≠ hexByte high low) :
      Heard false (past ++ '$'.toUInt8 :: payload ++ ['#'.toUInt8, high, low]) (refused + 1)

/-- The bytes `past` end in a packet that goes on with `more` behind its payload, and each packet
refused before it has been answered. -/
def Opened (sent past payload more : List UInt8) (r : Receiver) : Prop :=
  ∃ cut before refused, Heard cut before refused ∧ past = before ++ '$'.toUInt8 :: payload ++ more ∧
    Plain payload ∧ r.sent = sent ++ List.replicate refused '-'.toUInt8

/-- Where `getpacket` stands after the bytes `past`, with `sum` of what it has stored. -/
def Standing (sent past : List UInt8) (r : Receiver) : Prop :=
  match r.reading with
  | .start => ∃ refused, Heard false past refused ∧ r.sent = sent ++ List.replicate refused '-'.toUInt8
  | .body count sum => ∃ payload, Opened sent past payload [] r ∧ count = payload.length ∧
      sum = checksum payload ∧ ∀ i, (within : i < payload.length) → r.buffer i = payload[i]
  | .high sum => ∃ payload, Opened sent past payload ['#'.toUInt8] r ∧ sum = checksum payload ∧
      Stored r.buffer payload
  | .low sum digit => ∃ payload, Opened sent past payload ['#'.toUInt8, digit] r ∧
      sum = checksum payload ∧ Stored r.buffer payload

theorem plain_nil : Plain [] := ⟨List.not_mem_nil, List.not_mem_nil, by decide⟩

theorem Plain.snoc {payload : List UInt8} (plain : Plain payload) {ch : UInt8}
    (opener : ch ≠ '$'.toUInt8) (closer : ch ≠ '#'.toUInt8) (room : payload.length + 1 < bufmax - 1) :
    Plain (payload ++ [ch]) where
  opener member := by
    rcases List.mem_append.1 member with old | new
    · exact plain.opener old
    · exact opener (List.mem_singleton.1 new).symm
  closer member := by
    rcases List.mem_append.1 member with old | new
    · exact plain.closer old
    · exact closer (List.mem_singleton.1 new).symm
  short := by
    rw [List.length_append]
    exact room

/-- Characters already in the buffer stay when the next one is stored. -/
theorem stored_snoc {buffer : ByteMem} {payload : List UInt8} (ch : UInt8)
    (chars : ∀ i, (within : i < payload.length) → buffer i = payload[i]) :
    ∀ i, (within : i < (payload ++ [ch]).length) →
      Function.update buffer payload.length ch i = (payload ++ [ch])[i] := by
  intro i within
  rw [List.length_append, List.length_singleton] at within
  by_cases last : i = payload.length
  · subst last
    rw [Function.update_self, List.getElem_append_right (Nat.le_refl _)]
    simp only [Nat.sub_self, List.getElem_singleton]
  · have old : i < payload.length := by omega
    rw [Function.update_of_ne last, List.getElem_append_left old, chars i old]

theorem stored_nul {buffer : ByteMem} {payload : List UInt8}
    (chars : ∀ i, (within : i < payload.length) → buffer i = payload[i]) :
    Stored (Function.update buffer payload.length 0) payload where
  chars i within := by rw [Function.update_of_ne (Nat.ne_of_lt within), chars i within]
  ends := Function.update_self _ _ _

/-- A byte that does not end the call. -/
theorem Standing.step {sent past : List UInt8} {r next : Receiver} {ch : UInt8}
    (stands : Standing sent past r) (goes : r.byte ch = (next, none)) :
    Standing sent (past ++ [ch]) next := by
  obtain ⟨reading, buffer, told⟩ := r
  cases reading with
  | start =>
      obtain ⟨refused, heard, answers⟩ := stands
      by_cases opener : ch = '$'.toUInt8
      · subst opener
        rw [byte_open _ (Or.inl rfl)] at goes
        cases goes
        refine ⟨[], ⟨false, past, refused, heard, ?_, plain_nil, answers⟩, rfl, rfl, fun i within => ?_⟩
        · rw [List.append_nil]
        · exact absurd within (Nat.not_lt_zero i)
      · rw [byte_start opener] at goes
        cases goes
        exact ⟨refused, heard.idle opener, answers⟩
  | body count sum =>
      obtain ⟨payload, ⟨cut, before, refused, heard, split, plain, answers⟩, rfl, rfl, chars⟩ := stands
      rw [List.append_nil] at split
      subst split
      by_cases opener : ch = '$'.toUInt8
      · subst opener
        rw [byte_open _ (Or.inr ⟨_, _, rfl⟩)] at goes
        cases goes
        refine ⟨[], ⟨true, _, refused, heard.cut plain, ?_, plain_nil, answers⟩, rfl, rfl, fun i within => ?_⟩
        · rw [List.append_nil]
        · exact absurd within (Nat.not_lt_zero i)
      · by_cases closer : ch = '#'.toUInt8
        · subst closer
          rw [byte_close] at goes
          cases goes
          exact ⟨payload, ⟨cut, before, refused, heard, rfl, plain, answers⟩, rfl, stored_nul chars⟩
        · rw [byte_store opener closer] at goes
          by_cases room : payload.length + 1 < bufmax - 1
          · rw [store_room room] at goes
            cases goes
            refine ⟨payload ++ [ch], ⟨cut, before, refused, heard, ?_, plain.snoc opener closer room,
              answers⟩, ?_, ?_, stored_snoc ch chars⟩
            · rw [List.append_nil, List.append_assoc, List.cons_append]
            · rw [List.length_append, List.length_singleton]
            · rw [checksum_append]
          · rw [store_full room] at goes
            cases goes
            have short := plain.short
            have unopened : '$'.toUInt8 ∉ payload ++ [ch] := by
              simpa using And.intro plain.opener (Ne.symm opener)
            have unclosed : '#'.toUInt8 ∉ payload ++ [ch] := by
              simpa using And.intro plain.closer (Ne.symm closer)
            have full : (payload ++ [ch]).length = bufmax - 1 := by
              rw [List.length_append, List.length_singleton]
              omega
            refine ⟨refused, ?_, answers⟩
            have long := heard.long unopened unclosed full
            rwa [List.append_assoc, List.cons_append]
  | high sum =>
      obtain ⟨payload, ⟨cut, before, refused, heard, rfl, plain, answers⟩, rfl, stored⟩ := stands
      cases goes
      refine ⟨payload, ⟨cut, before, refused, heard, ?_, plain, answers⟩, rfl, stored⟩
      rw [List.append_assoc]
      rfl
  | low sum digit =>
      obtain ⟨payload, ⟨cut, before, refused, heard, rfl, plain, answers⟩, rfl, stored⟩ := stands
      by_cases wrong : checksum payload ≠ hexByte digit ch
      · rw [byte_wrong wrong] at goes
        cases goes
        refine ⟨refused + 1, ?_, ?_⟩
        · have again := heard.refused plain wrong
          simpa only [List.append_assoc, List.cons_append, List.nil_append] using again
        · dsimp only at answers ⊢
          rw [answers, List.append_assoc, List.replicate_succ']
      · rw [not_not] at wrong
        rw [wrong, byte_right] at goes
        unfold Receiver.accept at goes
        dsimp only at goes
        split at goes
        · cases goes
        · cases goes

theorem Standing.run {sent past bytes : List UInt8} {r next : Receiver} (stands : Standing sent past r)
    (reads : Reads r bytes next) : Standing sent (past ++ bytes) next := by
  induction reads generalizing past with
  | nil r =>
      rw [List.append_nil]
      exact stands
  | cons step rest ih =>
      have later := ih (stands.step step)
      rwa [List.append_assoc] at later

/-- A call that returns does so at one byte of its input. -/
theorem getpacket_returned {r last : Receiver} {input rest : List UInt8} {offset : Nat}
    (returned : getpacket r input = some (offset, last, rest)) : ∃ bytes ch mid,
      input = bytes ++ ch :: rest ∧ Reads r bytes mid ∧ mid.byte ch = (last, some offset) := by
  induction input generalizing r with
  | nil => cases returned
  | cons ch input ih =>
      rw [getpacket] at returned
      rcases here : r.byte ch with ⟨next, result⟩
      rw [here] at returned
      cases result with
      | none =>
          obtain ⟨bytes, last', mid, rfl, reads, ends⟩ := ih returned
          exact ⟨ch :: bytes, last', mid, rfl, Reads.cons here reads, ends⟩
      | some offset' =>
          cases returned
          exact ⟨[], ch, r, rfl, Reads.nil r, here⟩

/-- The answer to a packet: with a sequence number, the number is repeated and skipped. -/
def Answered (sent : List UInt8) (offset : Nat) (r : Receiver) : Prop :=
  (r.buffer 2 ≠ ':'.toUInt8 ∧ offset = 0 ∧ r.sent = sent ++ ['+'.toUInt8]) ∨
    (r.buffer 2 = ':'.toUInt8 ∧ offset = 3 ∧ r.sent = sent ++ ['+'.toUInt8, r.buffer 0, r.buffer 1])

/-- The byte at which a call returns is the last of a checksum that is right. -/
theorem byte_returned {r last : Receiver} {ch : UInt8} {offset : Nat}
    (ends : r.byte ch = (last, some offset)) : ∃ digit, r.reading = .low (hexByte digit ch) digit ∧
      last.buffer = r.buffer ∧ Answered r.sent offset last := by
  obtain ⟨reading, buffer, sent⟩ := r
  cases reading with
  | start =>
      unfold Receiver.byte at ends
      cases ends
  | body count sum =>
      unfold Receiver.byte at ends
      dsimp only at ends
      split at ends
      · cases ends
      · split at ends
        · cases ends
        · cases ends
  | high sum => cases ends
  | low sum digit =>
      by_cases wrong : sum ≠ hexByte digit ch
      · rw [byte_wrong wrong] at ends
        cases ends
      · rw [not_not] at wrong
        subst wrong
        rw [byte_right] at ends
        refine ⟨digit, rfl, ?_⟩
        unfold Receiver.accept at ends
        dsimp only at ends
        split at ends
        · rename_i numbered
          cases ends
          refine ⟨rfl, Or.inr ⟨numbered, rfl, ?_⟩⟩
          exact List.append_assoc _ _ _
        · rename_i unnumbered
          cases ends
          exact ⟨rfl, Or.inl ⟨unnumbered, rfl, rfl⟩⟩

/-- Whatever the line brings, what `getpacket` returns stood on it as a packet with the right checksum,
behind bytes that end no other such packet; it lies in the buffer, and the host has had `'-'` for every
packet refused before it and `'+'` for this one. -/
theorem getpacket_framed {buffer : ByteMem} {sent input rest : List UInt8} {offset : Nat}
    {last : Receiver} (returned : getpacket ⟨.start, buffer, sent⟩ input = some (offset, last, rest)) :
    ∃ cut before refused payload high low, Heard cut before refused ∧
      input = before ++ '$'.toUInt8 :: payload ++ ['#'.toUInt8, high, low] ++ rest ∧
      Plain payload ∧ hexByte high low = checksum payload ∧ Stored last.buffer payload ∧
      Answered (sent ++ List.replicate refused '-'.toUInt8) offset last := by
  obtain ⟨bytes, ch, mid, rfl, reads, ends⟩ := getpacket_returned returned
  obtain ⟨digit, reading, same, answered⟩ := byte_returned ends
  have fresh : Standing sent [] ⟨.start, buffer, sent⟩ := ⟨0, Heard.nothing, (List.append_nil sent).symm⟩
  have stands := fresh.run reads
  unfold Standing at stands
  rw [reading] at stands
  obtain ⟨payload, ⟨cut, before, refused, heard, split, plain, answers⟩, sum, stored⟩ := stands
  rw [List.nil_append] at split
  refine ⟨cut, before, refused, payload, digit, ch, heard, ?_, plain, sum, by rwa [same], ?_⟩
  · rw [split]
    simp only [List.append_assoc, List.cons_append, List.nil_append]
  · rw [answers] at answered
    exact answered

/-- `$?#3f`, behind a packet with a wrong checksum. -/
theorem getpacket_framed_status : ∃ last : Receiver, last.sent = ['-'.toUInt8, '+'.toUInt8] ∧
    ∃ cut before refused payload high low, Heard cut before refused ∧
      [36, 63, 35, 48, 48, 36, 63, 35, 51, 102] =
        before ++ '$'.toUInt8 :: payload ++ ['#'.toUInt8, high, low] ++ [] ∧
      Plain payload ∧ hexByte high low = checksum payload ∧ Stored last.buffer payload ∧
      Answered ([] ++ List.replicate refused '-'.toUInt8) 0 last :=
  ⟨_, rfl, getpacket_framed (show getpacket ⟨.start, fun _ => 0, []⟩
    [36, 63, 35, 48, 48, 36, 63, 35, 51, 102] = some (0, _, []) from rfl)⟩

/-! ## What is read of a packet -/

section Reading

variable {buffer : ByteMem} {sent : List UInt8}

theorem reads_idle {noise : List UInt8} (idle : '$'.toUInt8 ∉ noise) :
    Reads ⟨.start, buffer, sent⟩ noise ⟨.start, buffer, sent⟩ := by
  induction noise with
  | nil => exact Reads.nil _
  | cons ch noise ih =>
      obtain ⟨other, later⟩ := not_or.1 (mt List.mem_cons.2 idle)
      exact Reads.cons (byte_start (Ne.symm other)) (ih later)

/-- The characters of a packet go into the buffer. -/
theorem reads_body (buffer : ByteMem) (sent done more : List UInt8) (plain : Plain (done ++ more))
    (chars : ∀ i, (within : i < done.length) → buffer i = done[i]) : ∃ buffer',
      Reads ⟨.body done.length (checksum done), buffer, sent⟩ more
        ⟨.body (done ++ more).length (checksum (done ++ more)), buffer', sent⟩ ∧
      (∀ i, (within : i < (done ++ more).length) → buffer' i = (done ++ more)[i]) ∧
      ∀ i, (done ++ more).length ≤ i → buffer' i = buffer i := by
  induction more generalizing done buffer with
  | nil =>
      refine ⟨buffer, ?_, ?_, fun i beyond => rfl⟩
      · rw [List.append_nil]
        exact Reads.nil _
      · simpa only [List.append_nil] using chars
  | cons ch more ih =>
      have joined : done ++ ch :: more = done ++ [ch] ++ more := by rw [List.append_assoc]; rfl
      rw [joined] at plain ⊢
      have opener : ch ≠ '$'.toUInt8 := fun same => plain.opener (by simp [same])
      have closer : ch ≠ '#'.toUInt8 := fun same => plain.closer (by simp [same])
      have short := plain.short
      rw [List.length_append, List.length_append, List.length_singleton] at short
      have room : done.length + 1 < bufmax - 1 := by omega
      obtain ⟨buffer', reads, stored, kept⟩ := ih _ _ plain (stored_snoc ch chars)
      have longer : (done ++ [ch]).length = done.length + 1 := by
        rw [List.length_append, List.length_singleton]
      rw [longer, checksum_append] at reads
      refine ⟨buffer', Reads.cons ?_ reads, stored, fun i beyond => ?_⟩
      · rw [byte_store opener closer, store_room room]
      · rw [kept i beyond, Function.update_of_ne]
        rw [List.length_append, List.length_append, List.length_singleton] at beyond
        omega

/-- Everything up to the last digit, after any bytes without a `'$'`. -/
theorem reads_packet (buffer : ByteMem) (sent : List UInt8) {noise payload : List UInt8} (idle : '$'.toUInt8 ∉ noise) (plain : Plain payload)
    (high : UInt8) : ∃ buffer',
      Reads ⟨.start, buffer, sent⟩ (noise ++ '$'.toUInt8 :: payload ++ ['#'.toUInt8, high])
        ⟨.low (checksum payload) high, buffer', sent⟩ ∧
      Stored buffer' payload ∧ ∀ i, payload.length < i → buffer' i = buffer i := by
  obtain ⟨buffer', reads, chars, kept⟩ := reads_body buffer sent [] payload plain
    fun i within => absurd within (Nat.not_lt_zero i)
  refine ⟨Function.update buffer' payload.length 0, ?_, stored_nul chars, fun i beyond => ?_⟩
  · rw [List.append_assoc, List.cons_append]
    refine (reads_idle idle).append (Reads.cons (byte_open _ (Or.inl rfl)) (Reads.append reads ?_))
    exact Reads.cons rfl (Reads.cons rfl (Reads.nil _))
  · rw [Function.update_of_ne (Nat.ne_of_gt beyond)]
    exact kept i (Nat.le_of_lt beyond)

/-- No `':'` comes to lie at index 2. -/
theorem unnumbered_kept {payload : List UInt8} {buffer' : ByteMem} (before : buffer 2 ≠ ':'.toUInt8)
    (unnumbered : payload[2]? ≠ some ':'.toUInt8) (stored : Stored buffer' payload)
    (kept : ∀ i, payload.length < i → buffer' i = buffer i) : buffer' 2 ≠ ':'.toUInt8 := by
  rcases Nat.lt_trichotomy payload.length 2 with short | exact' | long
  · rw [kept 2 short]
    exact before
  · have nul := stored.ends
    rw [exact'] at nul
    rw [nul]
    decide
  · rw [stored.chars 2 long]
    intro same
    exact unnumbered (by rw [List.getElem?_eq_getElem long, same])

/-- A packet is read, whatever is behind it. -/
theorem getpacket_frame (sent : List UInt8) {noise payload : List UInt8} (idle : '$'.toUInt8 ∉ noise) (plain : Plain payload)
    (unnumbered : payload[2]? ≠ some ':'.toUInt8) (before : buffer 2 ≠ ':'.toUInt8)
    (rest : List UInt8) : ∃ buffer',
      getpacket ⟨.start, buffer, sent⟩ (noise ++ frame payload ++ rest) =
        some (0, ⟨.start, buffer', sent ++ ['+'.toUInt8]⟩, rest) ∧
      Stored buffer' payload ∧ buffer' 2 ≠ ':'.toUInt8 := by
  obtain ⟨buffer', reads, stored, kept⟩ := reads_packet buffer sent idle plain
    (hexchars ((checksum payload).toNat / 16))
  have clear := unnumbered_kept before unnumbered stored kept
  refine ⟨buffer', ?_, stored, clear⟩
  have split : noise ++ frame payload ++ rest =
      noise ++ '$'.toUInt8 :: payload ++ ['#'.toUInt8, hexchars ((checksum payload).toNat / 16)] ++
        hexchars ((checksum payload).toNat % 16) :: rest := by
    unfold frame
    simp only [List.append_assoc, List.cons_append, List.nil_append]
  have right := byte_right buffer' sent (hexchars ((checksum payload).toNat / 16))
    (hexchars ((checksum payload).toNat % 16))
  rw [hexByte_hexchars, accept_plain clear] at right
  rw [split, getpacket_reads reads, getpacket, right]

/-- A damaged copy is refused. -/
theorem reads_damaged (sent : List UInt8) {copy noise body : List UInt8} {high low : UInt8}
    (damaged : Damaged copy noise body high low) (before : buffer 2 ≠ ':'.toUInt8) : ∃ buffer',
      Reads ⟨.start, buffer, sent⟩ copy ⟨.start, buffer', sent ++ ['-'.toUInt8]⟩ ∧
      buffer' 2 ≠ ':'.toUInt8 := by
  obtain ⟨buffer', reads, stored, kept⟩ := reads_packet buffer sent damaged.idle damaged.plain high
  refine ⟨buffer', ?_, unnumbered_kept before damaged.unnumbered stored kept⟩
  have whole := reads.append (Reads.cons (byte_wrong damaged.wrong) (Reads.nil _))
  rw [damaged.split]
  simpa only [List.append_assoc, List.cons_append, List.nil_append] using whole

theorem reads_copies (sent : List UInt8) {copies : List (List UInt8)}
    (damaged : ∀ copy ∈ copies, ∃ noise body high low, Damaged copy noise body high low)
    (before : buffer 2 ≠ ':'.toUInt8) : ∃ buffer',
      Reads ⟨.start, buffer, sent⟩ copies.flatten
        ⟨.start, buffer', sent ++ List.replicate copies.length '-'.toUInt8⟩ ∧
      buffer' 2 ≠ ':'.toUInt8 := by
  induction copies generalizing buffer sent with
  | nil =>
      refine ⟨buffer, ?_, before⟩
      rw [List.length_nil, List.replicate_zero, List.append_nil]
      exact Reads.nil _
  | cons copy copies ih =>
      obtain ⟨noise, body, high, low, here⟩ := damaged copy List.mem_cons_self
      obtain ⟨buffer₁, reads, clear⟩ := reads_damaged sent here before
      obtain ⟨buffer₂, later, clear'⟩ := ih (sent ++ ['-'.toUInt8])
        (fun other member => damaged other (List.mem_cons_of_mem copy member)) clear
      refine ⟨buffer₂, ?_, clear'⟩
      rw [List.append_assoc, List.singleton_append, ← List.replicate_succ] at later
      rw [List.flatten_cons, List.length_cons]
      exact reads.append later

end Reading

end TrollOS.Gdb
