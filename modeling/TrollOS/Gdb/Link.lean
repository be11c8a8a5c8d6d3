import TrollOS.Gdb.Packets
import TrollOS.Lib.CString

/-!
# Both ends of a line

What `putpacket` sends, and a `getpacket` that reads it.  A copy that is damaged between its `'$'` and
its checksum is refused and sent again; the packet arrives once.
-/

namespace TrollOS.Gdb

open TrollOS.Lib

/-! ## What is sent -/

def ofList (payload : List UInt8) : ByteMem := fun i => payload.getD i 0

theorem ofList_text (payload : List UInt8) : TextAt (ofList payload) 0 payload := by
  refine Stored.text ⟨fun i within => ?_, ?_⟩
  · rw [ofList, List.getD_eq_getElem?_getD, List.getElem?_eq_getElem within]
    rfl
  · rw [ofList, List.getD_eq_getElem?_getD, List.getElem?_eq_none (Nat.le_refl _)]
    rfl

theorem putBody_text {buffer : ByteMem} {count room : Nat} {text : List UInt8}
    (found : TextAt buffer count text) (nonzero : 0 ∉ text) (fits : text.length < room) (sum : UInt8) :
    putBody buffer room count sum = some (text, text.foldl (· + ·) sum) := by
  induction text generalizing count room sum with
  | nil =>
      obtain ⟨room, rfl⟩ := Nat.exists_eq_succ_of_ne_zero (Nat.ne_of_gt fits)
      have ends : buffer count = 0 := found
      rw [putBody, if_pos ends]
      rfl
  | cons ch text ih =>
      obtain ⟨room, rfl⟩ :=
        Nat.exists_eq_succ_of_ne_zero (Nat.ne_of_gt (Nat.lt_of_le_of_lt (Nat.zero_le _) fits))
      obtain ⟨other, later⟩ := not_or.1 (mt List.mem_cons.2 nonzero)
      rw [putBody, found.1, if_neg (Ne.symm other),
        ih found.2 later (Nat.lt_of_succ_lt_succ fits) (sum + ch)]
      rfl

theorem putOnce_text {buffer : ByteMem} {text : List UInt8} (found : TextAt buffer 0 text)
    (nonzero : 0 ∉ text) (fits : text.length < bufmax) : putOnce buffer = some (frame text) := by
  unfold putOnce
  rw [putBody_text found nonzero fits]
  rfl

/-- It is sent until a `'+'` comes, once for every other byte and once more. -/
theorem putUntil_replies (once : List UInt8) {refusals : List UInt8} (refused : '+'.toUInt8 ∉ refusals)
    (rest : List UInt8) : putUntil once (refusals ++ '+'.toUInt8 :: rest) =
      .done ((List.replicate (refusals.length + 1) once).flatten, rest) := by
  induction refusals with
  | nil => simp [putUntil]
  | cons ch refusals ih =>
      obtain ⟨other, later⟩ := not_or.1 (mt List.mem_cons.2 refused)
      rw [List.cons_append, putUntil, if_neg (Ne.symm other), ih later]
      rfl

theorem putpacket_replies {buffer : ByteMem} {payload : List UInt8} (found : TextAt buffer 0 payload)
    (nonzero : 0 ∉ payload) (fits : payload.length < bufmax) {refusals : List UInt8}
    (refused : '+'.toUInt8 ∉ refusals) (rest : List UInt8) :
    putpacket buffer (refusals ++ '+'.toUInt8 :: rest) =
      .done ((List.replicate (refusals.length + 1) (frame payload)).flatten, rest) := by
  unfold putpacket
  rw [putOnce_text found nonzero fits]
  exact putUntil_replies _ refused rest

/-! ## Both ends of a line -/

def stringAt (buffer : ByteMem) (offset : Nat) : List UInt8 := cString buffer offset (bufmax - offset)

/-- So many calls of `getpacket`, one after the other: the strings they return. -/
def receiveAll : Nat → Receiver → List UInt8 → Option (List (List UInt8) × Receiver × List UInt8)
  | 0, r, input => some ([], r, input)
  | calls + 1, r, input =>
      match getpacket { r with reading := .start } input with
      | none => none
      | some (offset, next, rest) =>
          (receiveAll calls next rest).map fun later => (stringAt next.buffer offset :: later.1, later.2)

/-- Calls of `putpacket`, one after the other, on these strings: the bytes sent. -/
def sendAll : List (List UInt8) → List UInt8 → Served (List UInt8 × List UInt8)
  | [], input => .done ([], input)
  | payload :: payloads, input =>
      (putpacket (ofList payload) input).andThen fun first =>
        (sendAll payloads first.2).andThen fun later => .done (first.1 ++ later.1, later.2)

/-- A packet on its way: its text, and the damaged copies that arrive before a whole one. -/
structure Delivery where
  payload : List UInt8
  copies : List (List UInt8)

structure Delivery.Sound (d : Delivery) : Prop where
  plain : Plain d.payload
  text : 0 ∉ d.payload
  unnumbered : d.payload[2]? ≠ some ':'.toUInt8
  damaged : ∀ copy ∈ d.copies, ∃ noise body high low, Damaged copy noise body high low

/-- What arrives, and what has been sent. -/
def Delivery.arriving (d : Delivery) : List UInt8 := d.copies.flatten ++ frame d.payload
def Delivery.departing (d : Delivery) : List UInt8 :=
  (List.replicate (d.copies.length + 1) (frame d.payload)).flatten

def Delivery.answers (d : Delivery) : List UInt8 :=
  List.replicate d.copies.length '-'.toUInt8 ++ ['+'.toUInt8]

theorem stringAt_stored {buffer : ByteMem} {payload : List UInt8} (stored : Stored buffer payload)
    (text : 0 ∉ payload) (plain : Plain payload) : stringAt buffer 0 = payload := by
  have short := plain.short
  refine cString_eq text (by unfold bufmax at *; omega) fun i small within => ?_
  rw [Nat.zero_add, List.getD_eq_getElem?_getD]
  rcases Nat.lt_or_eq_of_le within with inside | last
  · rw [stored.chars i inside, List.getElem?_eq_getElem inside]
    rfl
  · rw [last, stored.ends, List.getElem?_eq_none (Nat.le_refl _)]
    rfl

theorem Delivery.Sound.received {d : Delivery} (sound : d.Sound) {buffer : ByteMem}
    (before : buffer 2 ≠ ':'.toUInt8) (sent rest : List UInt8) : ∃ buffer',
      getpacket ⟨.start, buffer, sent⟩ (d.arriving ++ rest) =
        some (0, ⟨.start, buffer', sent ++ d.answers⟩, rest) ∧
      stringAt buffer' 0 = d.payload ∧ buffer' 2 ≠ ':'.toUInt8 := by
  obtain ⟨buffer₁, reads, clear₁⟩ := reads_copies sent sound.damaged before
  obtain ⟨buffer₂, returned, stored, clear₂⟩ := getpacket_frame _
    (List.not_mem_nil : '$'.toUInt8 ∉ []) sound.plain sound.unnumbered clear₁ rest
  refine ⟨buffer₂, ?_, stringAt_stored stored sound.text sound.plain, clear₂⟩
  unfold Delivery.arriving Delivery.answers
  rw [List.append_assoc, getpacket_reads reads, ← List.append_assoc]
  exact returned

theorem Delivery.Sound.sent {d : Delivery} (sound : d.Sound) (rest : List UInt8) :
    putpacket (ofList d.payload) (d.answers ++ rest) = .done (d.departing, rest) := by
  have short := sound.plain.short
  have refused : '+'.toUInt8 ∉ List.replicate d.copies.length '-'.toUInt8 := fun member =>
    absurd (List.eq_of_mem_replicate member) (by decide)
  have replied := putpacket_replies (ofList_text d.payload) sound.text (by omega) refused rest
  rw [List.length_replicate] at replied
  unfold Delivery.answers Delivery.departing
  rw [List.append_assoc]
  exact replied

theorem receiveAll_deliveries {deliveries : List Delivery} (sound : ∀ d ∈ deliveries, d.Sound)
    {buffer : ByteMem} (before : buffer 2 ≠ ':'.toUInt8) (sent rest : List UInt8) : ∃ buffer',
      receiveAll deliveries.length ⟨.start, buffer, sent⟩ (deliveries.flatMap Delivery.arriving ++ rest) =
        some (deliveries.map Delivery.payload,
          ⟨.start, buffer', sent ++ deliveries.flatMap Delivery.answers⟩, rest) := by
  induction deliveries generalizing buffer sent with
  | nil =>
      refine ⟨buffer, ?_⟩
      simp only [List.flatMap_nil, List.append_nil, List.nil_append]
      rfl
  | cons d deliveries ih =>
      obtain ⟨buffer₁, returned, string, clear⟩ := (sound d List.mem_cons_self).received before sent
        (deliveries.flatMap Delivery.arriving ++ rest)
      obtain ⟨buffer₂, later⟩ := ih (fun other member => sound other (List.mem_cons_of_mem d member))
        clear (sent ++ d.answers)
      refine ⟨buffer₂, ?_⟩
      rw [List.length_cons, receiveAll, List.flatMap_cons, List.flatMap_cons, List.append_assoc]
      dsimp only
      rw [returned]
      dsimp only
      rw [later, string, List.append_assoc]
      rfl

theorem sendAll_deliveries {deliveries : List Delivery} (sound : ∀ d ∈ deliveries, d.Sound)
    (rest : List UInt8) :
    sendAll (deliveries.map Delivery.payload) (deliveries.flatMap Delivery.answers ++ rest) =
      .done (deliveries.flatMap Delivery.departing, rest) := by
  induction deliveries with
  | nil => rfl
  | cons d deliveries ih =>
      have first := (sound d List.mem_cons_self).sent (deliveries.flatMap Delivery.answers ++ rest)
      have later := ih fun other member => sound other (List.mem_cons_of_mem d member)
      rw [List.map_cons, List.flatMap_cons, List.append_assoc, sendAll, first, Served.andThen_done, later]
      rfl

/-- Packets sent by `putpacket` to a `getpacket` at the other end, over a line that damages any number
of copies of each so that the checksum shows it, arrive all, once and in order; with the answers of the
receiver, which are not damaged, the sender stops after exactly the copies that were needed. -/
theorem link_delivers {deliveries : List Delivery} (sound : ∀ d ∈ deliveries, d.Sound)
    {buffer : ByteMem} (before : buffer 2 ≠ ':'.toUInt8) : ∃ last : Receiver,
      receiveAll deliveries.length ⟨.start, buffer, []⟩ (deliveries.flatMap Delivery.arriving) =
        some (deliveries.map Delivery.payload, last, []) ∧
      sendAll (deliveries.map Delivery.payload) last.sent =
        .done (deliveries.flatMap Delivery.departing, []) := by
  obtain ⟨buffer', received⟩ := receiveAll_deliveries sound before [] []
  have sent := sendAll_deliveries sound []
  rw [List.append_nil] at received sent
  exact ⟨_, received, sent⟩

/-- `g`, twice, the first time with a wrong checksum. -/
def retried : Delivery := ⟨[103], [[36, 103, 35, 48, 48]]⟩

theorem retried_sound : retried.Sound where
  plain := ⟨by decide, by decide, by decide⟩
  text := by decide
  unnumbered := by decide
  damaged copy member := by
    cases List.mem_singleton.1 member
    exact ⟨[], [103], 48, 48, rfl, by decide, ⟨by decide, by decide, by decide⟩, by decide, by decide⟩

theorem link_delivers_retried : ∃ last : Receiver,
    receiveAll 1 ⟨.start, fun _ => 0, []⟩ ([retried].flatMap Delivery.arriving) =
      some ([[103]], last, []) ∧
    sendAll [[103]] last.sent = .done ([retried].flatMap Delivery.departing, []) :=
  link_delivers (List.forall_mem_singleton.2 retried_sound) (by decide : (0 : UInt8) ≠ ':'.toUInt8)

end TrollOS.Gdb
