import Mathlib.Logic.Function.Iterate
import TrollOS.Lib.ByteMemory

/-!
# Transfers on the SPI bus

The loop of `send_recv`, with a byte exchange as one step: a byte goes out and the slave's reply
comes back.
-/

namespace TrollOS.Spi

open TrollOS.Lib

/-- The variables of `send_recv`, the memory, and the bytes that have gone out.  `touched` lists the
addresses it has dereferenced. -/
structure Transfer where
  sdata : Nat
  rdata : Nat
  size : Nat
  memory : ByteMem
  sent : List UInt8
  touched : List Nat

def start (memory : ByteMem) (sdata rdata size : Nat) : Transfer :=
  ⟨sdata, rdata, size, memory, [], []⟩

/-- `send_recv_byte`: `reply k` is what the slave answers in exchange `k`. -/
def sendRecvByte (reply : Nat → UInt8) (dat : UInt8) (t : Transfer) : UInt8 × Transfer :=
  (reply t.sent.length, { t with sent := t.sent ++ [dat] })

/-- `if (sdata) s = *sdata++;` -/
def fetch (t : Transfer) : UInt8 × Transfer :=
  if t.sdata ≠ 0 then
    (t.memory t.sdata, { t with sdata := u32 (t.sdata + 1), touched := t.sdata :: t.touched })
  else (0xFF, t)

/-- `if (rdata) *rdata++ = r;` -/
def store (r : UInt8) (t : Transfer) : Transfer :=
  if t.rdata ≠ 0 then
    { t with
      rdata := u32 (t.rdata + 1)
      memory := Function.update t.memory t.rdata r
      touched := t.rdata :: t.touched }
  else t

def round (reply : Nat → UInt8) (t : Transfer) : Transfer :=
  let fetched := fetch t
  let exchanged := sendRecvByte reply fetched.1 fetched.2
  store exchanged.1 exchanged.2

/-- `while (size)`, for `fuel` tests of its condition, and the value returned. -/
def sendRecv (reply : Nat → UInt8) : Nat → Transfer → Option (Int × Transfer)
  | 0, _ => none
  | fuel + 1, t => if t.size ≠ 0 then sendRecv reply fuel (round reply t) else some (0, t)

/-- What a transfer of `size` bytes leaves: the bytes of `sdata` have gone out in order, the replies
are in `rdata`, and no address beyond the two buffers was touched. -/
structure Exchanged (reply : Nat → UInt8) (memory : ByteMem) (sdata rdata size : Nat) (t : Transfer) :
    Prop where
  sent : t.sent = (List.range size).map fun i => if sdata ≠ 0 then memory (sdata + i) else 0xFF
  stored : ∀ i, i < size → rdata ≠ 0 → t.memory (rdata + i) = reply i
  kept : ∀ a, (rdata = 0 ∨ a < rdata ∨ rdata + size ≤ a) → t.memory a = memory a
  within : ∀ a ∈ t.touched,
    (sdata ≠ 0 ∧ sdata ≤ a ∧ a < sdata + size) ∨ (rdata ≠ 0 ∧ rdata ≤ a ∧ a < rdata + size)

section Rounds

variable {reply : Nat → UInt8} {memory : ByteMem} {sdata rdata size : Nat}

theorem fetch_given {t : Transfer} (given : t.sdata ≠ 0) : fetch t =
    (t.memory t.sdata, { t with sdata := u32 (t.sdata + 1), touched := t.sdata :: t.touched }) :=
  if_pos given

theorem fetch_null {t : Transfer} (null : t.sdata = 0) : fetch t = (0xFF, t) :=
  if_neg (not_not.2 null)

theorem store_given {t : Transfer} (r : UInt8) (given : t.rdata ≠ 0) : store r t =
    { t with
      rdata := u32 (t.rdata + 1)
      memory := Function.update t.memory t.rdata r
      touched := t.rdata :: t.touched } :=
  if_pos given

theorem store_null {t : Transfer} (r : UInt8) (null : t.rdata = 0) : store r t = t :=
  if_neg (not_not.2 null)

theorem fetch_frame (t : Transfer) : (fetch t).2.size = t.size ∧ (fetch t).2.sent = t.sent ∧
    (fetch t).2.rdata = t.rdata ∧ (fetch t).2.memory = t.memory := by
  by_cases null : t.sdata = 0
  · rw [fetch_null null]
    exact ⟨rfl, rfl, rfl, rfl⟩
  · rw [fetch_given null]
    exact ⟨rfl, rfl, rfl, rfl⟩

theorem store_frame (r : UInt8) (t : Transfer) : (store r t).size = t.size ∧
    (store r t).sent = t.sent ∧ (store r t).sdata = t.sdata := by
  by_cases null : t.rdata = 0
  · rw [store_null r null]
    exact ⟨rfl, rfl, rfl⟩
  · rw [store_given r null]
    exact ⟨rfl, rfl, rfl⟩

theorem round_size (reply : Nat → UInt8) (t : Transfer) : (round reply t).size = t.size :=
  (store_frame _ _).1.trans (fetch_frame t).1

theorem round_sent (reply : Nat → UInt8) (t : Transfer) :
    (round reply t).sent = t.sent ++ [(fetch t).1] := by
  calc
    (round reply t).sent = (fetch t).2.sent ++ [(fetch t).1] := (store_frame _ _).2.1
    _ = t.sent ++ [(fetch t).1] := by rw [(fetch_frame t).2.1]

theorem fetch_sdata (t : Transfer) :
    (fetch t).2.sdata = if t.sdata ≠ 0 then u32 (t.sdata + 1) else t.sdata := by
  by_cases null : t.sdata = 0
  · rw [fetch_null null, if_neg (not_not.2 null)]
  · rw [fetch_given null, if_pos null]

theorem round_sdata (reply : Nat → UInt8) (t : Transfer) :
    (round reply t).sdata = if t.sdata ≠ 0 then u32 (t.sdata + 1) else t.sdata :=
  (store_frame _ _).2.2.trans (fetch_sdata t)

theorem round_rdata (reply : Nat → UInt8) (t : Transfer) :
    (round reply t).rdata = if t.rdata ≠ 0 then u32 (t.rdata + 1) else t.rdata := by
  unfold round
  have same : (sendRecvByte reply (fetch t).1 (fetch t).2).2.rdata = t.rdata := (fetch_frame t).2.2.1
  by_cases null : t.rdata = 0
  · rw [store_null _ (by rw [same, null]), if_neg (not_not.2 null), same]
  · rw [store_given _ (by rwa [same]), if_pos null, same]

theorem round_memory (reply : Nat → UInt8) (t : Transfer) : (round reply t).memory =
    if t.rdata ≠ 0 then Function.update t.memory t.rdata (reply t.sent.length) else t.memory := by
  unfold round
  have same : (sendRecvByte reply (fetch t).1 (fetch t).2).2.rdata = t.rdata := (fetch_frame t).2.2.1
  have memory : (sendRecvByte reply (fetch t).1 (fetch t).2).2.memory = t.memory := (fetch_frame t).2.2.2
  have answer : (sendRecvByte reply (fetch t).1 (fetch t).2).1 = reply t.sent.length := by
    unfold sendRecvByte
    rw [(fetch_frame t).2.1]
  by_cases null : t.rdata = 0
  · rw [store_null _ (by rw [same, null]), if_neg (not_not.2 null), memory]
  · rw [store_given _ (by rwa [same]), if_pos null, same, memory, answer]

theorem fetch_touched {t : Transfer} {a : Nat} (member : a ∈ (fetch t).2.touched) :
    a ∈ t.touched ∨ (t.sdata ≠ 0 ∧ a = t.sdata) := by
  by_cases null : t.sdata = 0
  · rw [fetch_null null] at member
    exact Or.inl member
  · rw [fetch_given null] at member
    rcases List.mem_cons.1 member with here | before
    · exact Or.inr ⟨null, here⟩
    · exact Or.inl before

theorem store_touched {r : UInt8} {t : Transfer} {a : Nat} (member : a ∈ (store r t).touched) :
    a ∈ t.touched ∨ (t.rdata ≠ 0 ∧ a = t.rdata) := by
  by_cases null : t.rdata = 0
  · rw [store_null r null] at member
    exact Or.inl member
  · rw [store_given r null] at member
    rcases List.mem_cons.1 member with here | before
    · exact Or.inr ⟨null, here⟩
    · exact Or.inl before

/-- A round touches the two places the pointers stand at. -/
theorem round_touched {t : Transfer} {a : Nat} (member : a ∈ (round reply t).touched) :
    a ∈ t.touched ∨ (t.sdata ≠ 0 ∧ a = t.sdata) ∨ (t.rdata ≠ 0 ∧ a = t.rdata) := by
  have same : (sendRecvByte reply (fetch t).1 (fetch t).2).2.rdata = t.rdata := (fetch_frame t).2.2.1
  rcases store_touched member with before | here
  · rcases fetch_touched before with before | here
    · exact Or.inl before
    · exact Or.inr (Or.inl here)
  · rw [same] at here
    exact Or.inr (Or.inr here)

/-- The remaining size never changes, and each round is one exchange. -/
theorem rounds_go_on (reply : Nat → UInt8) (t : Transfer) (n : Nat) :
    ((round reply)^[n] t).size = t.size ∧ ((round reply)^[n] t).sent.length = t.sent.length + n := by
  induction n with
  | zero => exact ⟨rfl, rfl⟩
  | succ n ih =>
      rw [Function.iterate_succ_apply']
      constructor
      · rw [round_size, ih.1]
      · rw [round_sent, List.length_append, ih.2]
        rfl

/-- A transfer of at least one byte never returns. -/
theorem sendRecv_never (reply : Nat → UInt8) {t : Transfer} (some' : t.size ≠ 0) (fuel : Nat) :
    sendRecv reply fuel t = none := by
  induction fuel generalizing t with
  | zero => rfl
  | succ fuel ih =>
      unfold sendRecv
      rw [if_pos some']
      exact ih (by rwa [round_size])

theorem sendRecv_empty (reply : Nat → UInt8) {t : Transfer} (none' : t.size = 0) (fuel : Nat) :
    sendRecv reply (fuel + 1) t = some (0, t) := by
  unfold sendRecv
  rw [if_neg (not_not.2 none')]

/-- Where a pointer stands after `n` exchanges, away from the end of the address space. -/
def moved (pointer n : Nat) : Nat := if pointer ≠ 0 then pointer + n else 0

theorem moved_null (n : Nat) : moved 0 n = 0 := if_neg (not_not.2 rfl)

theorem moved_given {pointer : Nat} (given : pointer ≠ 0) (n : Nat) : moved pointer n = pointer + n :=
  if_pos given

theorem moved_next {pointer n : Nat} (given : pointer ≠ 0) (low : pointer + n + 1 < 4294967296) :
    u32 (moved pointer n + 1) = moved pointer (n + 1) := by
  rw [moved_given given, moved_given given, u32_eq low]
  rfl

/-- The buffer that is sent is not overwritten ahead of the bytes that are still to go. -/
def Unspoilt (sdata rdata n : Nat) : Prop :=
  sdata = 0 ∨ rdata = 0 ∨ rdata ≤ sdata ∨ sdata + n ≤ rdata

/-- A transfer whose first `n` exchanges are done as they should be. -/
structure After (reply : Nat → UInt8) (memory : ByteMem) (sdata rdata n : Nat) (t : Transfer) :
    Prop extends Exchanged reply memory sdata rdata n t where
  source : t.sdata = moved sdata n
  target : t.rdata = moved rdata n

theorem after_start (memory : ByteMem) (sdata rdata size : Nat) :
    After reply memory sdata rdata 0 (start memory sdata rdata size) where
  sent := rfl
  stored := fun i below => absurd below (Nat.not_lt_zero i)
  kept := fun _ _ => rfl
  within := fun a member => absurd member List.not_mem_nil
  source := by
    by_cases null : sdata = 0
    · subst null
      rw [moved_null]
      rfl
    · rw [moved_given null]
      rfl
  target := by
    by_cases null : rdata = 0
    · subst null
      rw [moved_null]
      rfl
    · rw [moved_given null]
      rfl

variable {n : Nat} {t : Transfer}

theorem After.count (done : After reply memory sdata rdata n t) : t.sent.length = n := by
  rw [done.sent, List.length_map, List.length_range]

/-- Exchange `n` sends byte `n`. -/
theorem After.fetched (done : After reply memory sdata rdata n t)
    (unspoilt : Unspoilt sdata rdata (n + 1)) :
    (fetch t).1 = if sdata ≠ 0 then memory (sdata + n) else 0xFF := by
  by_cases null : sdata = 0
  · have here : t.sdata = 0 := by rw [done.source, null, moved_null]
    rw [fetch_null here, if_neg (not_not.2 null)]
  · have here : t.sdata = sdata + n := by rw [done.source, moved_given null]
    have fresh : t.memory (sdata + n) = memory (sdata + n) :=
      done.kept _ (by unfold Unspoilt at unspoilt; omega)
    rw [fetch_given (by omega), if_pos null, here, fresh]

theorem moved_round {pointer p : Nat} (low : pointer + n + 1 < 4294967296) (here : p = moved pointer n) :
    (if p ≠ 0 then u32 (p + 1) else p) = moved pointer (n + 1) := by
  by_cases null : pointer = 0
  · subst null
    rw [moved_null] at here ⊢
    rw [here, if_neg (not_not.2 rfl)]
  · have place : p = pointer + n := by rw [here, moved_given null]
    rw [if_pos (by omega), here, moved_next null low]

/-- A place a pointer has reached lies in its buffer. -/
theorem moved_mem {pointer p a : Nat} (here : p = moved pointer n) (some' : p ≠ 0) (same : a = p) :
    pointer ≠ 0 ∧ a = pointer + n := by
  by_cases null : pointer = 0
  · rw [null, moved_null] at here
    exact absurd here some'
  · rw [moved_given null] at here
    exact ⟨null, by omega⟩

/-- One round carries the exchange one byte further. -/
theorem After.next (done : After reply memory sdata rdata n t)
    (low : sdata + n + 1 < 4294967296) (low' : rdata + n + 1 < 4294967296)
    (unspoilt : Unspoilt sdata rdata (n + 1)) :
    After reply memory sdata rdata (n + 1) (round reply t) where
  sent := by
    rw [round_sent, done.fetched unspoilt, done.sent, List.range_succ, List.map_append]
    rfl
  stored := by
    intro i below given
    have here : t.rdata = rdata + n := by rw [done.target, moved_given given]
    rw [round_memory, if_pos (by omega), here, done.count]
    by_cases last : i = n
    · rw [last, Function.update_self]
    · rw [Function.update_of_ne (by omega)]
      exact done.stored i (by omega) given
  kept := by
    intro a outside
    by_cases null : rdata = 0
    · have here : t.rdata = 0 := by rw [done.target, null, moved_null]
      rw [round_memory, if_neg (not_not.2 here)]
      exact done.kept a (Or.inl null)
    · have here : t.rdata = rdata + n := by rw [done.target, moved_given null]
      rw [round_memory, if_pos (by omega), here, Function.update_of_ne (by omega)]
      exact done.kept a (by omega)
  within := by
    intro a member
    rcases round_touched member with before | ⟨some', here⟩ | ⟨some', here⟩
    · have old := done.within a before
      omega
    · have place := moved_mem done.source some' here
      omega
    · have place := moved_mem done.target some' here
      omega
  source := by rw [round_sdata, moved_round low done.source]
  target := by rw [round_rdata, moved_round low' done.target]

/-- The exchanges of the loop are the right ones, as many as there are. -/
theorem rounds_exchange (reply : Nat → UInt8) (memory : ByteMem) (size : Nat)
    (low : sdata + n < 4294967296) (low' : rdata + n < 4294967296) (unspoilt : Unspoilt sdata rdata n) :
    After reply memory sdata rdata n ((round reply)^[n] (start memory sdata rdata size)) := by
  induction n with
  | zero => exact after_start memory sdata rdata size
  | succ n ih =>
      rw [Function.iterate_succ_apply']
      exact (ih (by omega) (by omega) (by unfold Unspoilt at *; omega)).next low low' unspoilt

end Rounds

/-- `send_recv` makes the transfer it is asked for exactly when nothing is to be transferred. -/
theorem send_recv_exchanges_iff (reply : Nat → UInt8) (memory : ByteMem) (sdata rdata size : Nat) :
    (∃ fuel code t, sendRecv reply fuel (start memory sdata rdata size) = some (code, t) ∧
      Exchanged reply memory sdata rdata size t) ↔ size = 0 := by
  constructor
  · rintro ⟨fuel, code, t, ran, -⟩
    by_contra some'
    rw [sendRecv_never reply some' fuel] at ran
    exact absurd ran (Option.some_ne_none _).symm
  · intro none'
    subst none'
    exact ⟨1, 0, _, sendRecv_empty reply rfl 0, (after_start memory sdata rdata 0).toExchanged⟩

/-- One byte to send and no buffer for the answer. -/
theorem one_byte_runs_on : ¬ ∃ fuel code t,
    sendRecv (fun _ => 0) fuel (start (fun _ => 0x40) 4096 0 1) = some (code, t) ∧
      Exchanged (fun _ => 0) (fun _ => 0x40) 4096 0 1 t := by
  rintro ⟨fuel, code, t, ran, -⟩
  rw [sendRecv_never (fun _ => 0) (show (1 : Nat) ≠ 0 from Nat.one_ne_zero) fuel] at ran
  exact absurd ran (Option.some_ne_none _).symm

end TrollOS.Spi
