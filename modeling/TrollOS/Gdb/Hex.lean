import TrollOS.Gdb.Packets

/-!
# Hexadecimal text and memory

What `hexToInt`, `mem2hex` and `hex2mem` do to text, and the two ways between bytes and digits.
-/

namespace TrollOS.Gdb

open TrollOS.Lib

/-! ## Numbers -/

def isHex (ch : UInt8) : Bool := 0 ≤ hex ch

/-- The digits a text begins with, and what is behind them. -/
def digits (text : List UInt8) : List UInt8 := text.takeWhile isHex
def behind (text : List UInt8) : List UInt8 := text.dropWhile isHex

def number (ds : List UInt8) : Nat := ds.foldl (fun n d => n * 16 + (hex d).toNat) 0

theorem hex_small : ∀ n < 256, (hex (UInt8.ofNat n)).toNat < 16 := by decide +kernel

theorem hex_lt (ch : UInt8) : (hex ch).toNat < 16 := by
  have small := hex_small ch.toNat ch.toNat_lt
  rwa [UInt8.ofNat_toNat] at small

theorem number_snoc (ds : List UInt8) (d : UInt8) : number (ds ++ [d]) = number ds * 16 + (hex d).toNat :=
  List.foldl_append

/-- A digit is put behind the others in a 32-bit word. -/
theorem word_digit (n : Nat) {d : Nat} (small : d < 16) : u32 (u32 n * 16) ||| d = u32 (n * 16 + d) := by
  unfold u32
  have shifted : n % 4294967296 * 16 % 4294967296 = 2 ^ 4 * (n % 268435456) := by omega
  rw [shifted, ← Nat.two_pow_add_eq_or_of_lt (i := 4) small]
  omega

theorem hexToIntLoop_text {buffer : ByteMem} {room ptr : Nat} {text : List UInt8}
    (found : TextAt buffer ptr text) (nonzero : 0 ∉ text) (fits : text.length < room) (done : List UInt8) :
    hexToIntLoop buffer room done.length (u32 (number done)) ptr =
      some ((done ++ digits text).length, u32 (number (done ++ digits text)), ptr + (digits text).length) := by
  induction text generalizing room ptr done with
  | nil =>
      obtain ⟨room, rfl⟩ := Nat.exists_eq_succ_of_ne_zero (Nat.ne_of_gt fits)
      have ends : buffer ptr = 0 := found
      rw [hexToIntLoop, if_pos ends]
      simp [digits]
  | cons ch text ih =>
      obtain ⟨room, rfl⟩ := Nat.exists_eq_succ_of_ne_zero (Nat.ne_of_gt (Nat.lt_of_le_of_lt (Nat.zero_le _) fits))
      obtain ⟨other, later⟩ := not_or.1 (mt List.mem_cons.2 nonzero)
      rw [hexToIntLoop, found.1, if_neg (Ne.symm other)]
      by_cases digit : 0 ≤ hex ch
      · have next := ih found.2 later (Nat.lt_of_succ_lt_succ fits) (done ++ [ch])
        have more : digits (ch :: text) = ch :: digits text :=
          List.takeWhile_cons_of_pos (decide_eq_true digit)
        rw [List.length_append, List.length_singleton, number_snoc, ← word_digit _ (hex_lt ch)] at next
        rw [if_pos digit, next, more, List.append_assoc, List.length_cons, List.singleton_append]
        congr 3
        omega
      · have none : digits (ch :: text) = [] := List.takeWhile_cons_of_neg (by simpa [isHex] using digit)
        rw [if_neg digit, none, List.append_nil]
        rfl

/-- `hexToInt` reads the digits in front, modulo 2³², and leaves the pointer behind them. -/
theorem hexToInt_text {buffer : ByteMem} {ptr : Nat} {text : List UInt8} (found : TextAt buffer ptr text)
    (nonzero : 0 ∉ text) (fits : ptr + text.length < bufmax) : hexToInt buffer ptr =
      some ((digits text).length, u32 (number (digits text)), ptr + (digits text).length) :=
  hexToIntLoop_text found nonzero (by omega) []

/-- Behind the digits the text goes on. -/
theorem TextAt.behind {buffer : ByteMem} {ptr : Nat} {text : List UInt8} (found : TextAt buffer ptr text) :
    TextAt buffer (ptr + (digits text).length) (behind text) := by
  have split : text = digits text ++ Gdb.behind text := (List.takeWhile_append_dropWhile).symm
  rw [split] at found
  exact found.skip

/-! ## Bytes as digits -/

/-- Two digits for a byte. -/
def hexOf (bytes : List UInt8) : List UInt8 :=
  bytes.flatMap fun byte => [hexchars (byte.toNat / 16), hexchars (byte.toNat % 16)]

def decoded : List UInt8 → List UInt8
  | high :: low :: text => hexByte high low :: decoded text
  | _ => []

theorem hexOf_length (bytes : List UInt8) : (hexOf bytes).length = 2 * bytes.length := by
  induction bytes with
  | nil => rfl
  | cons byte bytes ih =>
      unfold hexOf at ih ⊢
      rw [List.flatMap_cons, List.length_append, ih, List.length_cons]
      change 2 + 2 * bytes.length = 2 * (bytes.length + 1)
      omega

theorem pair_cases {text : List UInt8} {n : Nat} (even : text.length = 2 * (n + 1)) :
    ∃ high low rest, text = high :: low :: rest ∧ rest.length = 2 * n := by
  match text with
  | [] => exact absurd even (by simp)
  | [_] =>
      rw [List.length_singleton] at even
      omega
  | high :: low :: rest =>
      simp only [List.length_cons] at even
      exact ⟨high, low, rest, rfl, by omega⟩

theorem decoded_length {text : List UInt8} {n : Nat} (even : text.length = 2 * n) :
    (decoded text).length = n := by
  induction n generalizing text with
  | zero =>
      rw [List.length_eq_zero_iff.1 even]
      rfl
  | succ n ih =>
      obtain ⟨high, low, rest, rfl, later⟩ := pair_cases even
      rw [decoded, List.length_cons, ih later]

theorem hexchars_plain : ∀ n < 16, hexchars n ≠ 0 ∧ hexchars n ≠ '$'.toUInt8 ∧ hexchars n ≠ '#'.toUInt8 ∧
    hexchars n ≠ ':'.toUInt8 ∧ 0 ≤ hex (hexchars n) := by
  decide +kernel

theorem hexOf_char {bytes : List UInt8} {ch : UInt8} (member : ch ∈ hexOf bytes) :
    ∃ n < 16, ch = hexchars n := by
  obtain ⟨byte, -, here⟩ := List.mem_flatMap.1 member
  have small := byte.toNat_lt
  rcases List.mem_cons.1 here with rfl | here
  · exact ⟨_, by omega, rfl⟩
  · exact ⟨_, by omega, List.mem_singleton.1 here⟩

/-! ## Memory as text -/

/-- The bytes at consecutive addresses, if all are there. -/
def gather (read : Nat → Option UInt8) : Nat → Nat → Option (List UInt8)
  | 0, _ => some []
  | count + 1, mem =>
      (read mem).bind fun byte => (gather read count (u32 (mem + 1))).map fun bytes => byte :: bytes

def scatter (present : Nat → Bool) : ByteMem → Nat → List UInt8 → Bool × ByteMem
  | memory, _, [] => (true, memory)
  | memory, mem, byte :: bytes =>
      if present mem then scatter present (Function.update memory mem byte) (u32 (mem + 1)) bytes
      else (false, memory)

theorem gather_length {read : Nat → Option UInt8} {count mem : Nat} {bytes : List UInt8}
    (found : gather read count mem = some bytes) : bytes.length = count := by
  induction count generalizing mem bytes with
  | zero =>
      cases found
      rfl
  | succ count ih =>
      obtain ⟨byte, -, rest⟩ := Option.bind_eq_some_iff.1 found
      obtain ⟨more, later, rfl⟩ := Option.map_eq_some_iff.1 rest
      rw [List.length_cons, ih later]

/-- `mem2hex` over memory that is there, into a buffer with room. -/
theorem mem2hex_text {read : Nat → Option UInt8} {count mem buf : Nat} {bytes : List UInt8} (out : ByteMem)
    (found : gather read count mem = some bytes) (room : buf + 2 * count < bufmax) : ∃ out',
      mem2hex read count mem buf out = (.finished, out') ∧ TextAt out' buf (hexOf bytes) ∧
      ∀ x < buf, out' x = out x := by
  induction count generalizing mem buf bytes out with
  | zero =>
      cases found
      have inside : buf < bufmax := room
      refine ⟨Function.update out buf 0, ?_, Function.update_self _ _ _, fun x before => ?_⟩
      · rw [mem2hex, if_pos inside]
      · exact Function.update_of_ne (Nat.ne_of_lt before) _ _
  | succ count ih =>
      obtain ⟨byte, here, rest⟩ := Option.bind_eq_some_iff.1 found
      obtain ⟨more, later, rfl⟩ := Option.map_eq_some_iff.1 rest
      obtain ⟨out', ran, text, kept⟩ := ih
        (Function.update (Function.update out buf (hexchars (byte.toNat / 16))) (buf + 1)
          (hexchars (byte.toNat % 16))) later (show buf + 2 + 2 * count < bufmax by omega)
      refine ⟨out', ?_, ⟨?_, ?_, text⟩, fun x before => ?_⟩
      · rw [mem2hex, here]
        dsimp only
        rw [if_pos (by omega)]
        exact ran
      · rw [kept buf (by omega), Function.update_of_ne (by omega), Function.update_self]
      · rw [kept (buf + 1) (by omega), Function.update_self]
      · rw [kept x (by omega), Function.update_of_ne (by omega), Function.update_of_ne (by omega)]

/-- Where a byte is missing, the bus error comes before the buffer is full. -/
theorem mem2hex_missing {read : Nat → Option UInt8} {count mem buf : Nat} (out : ByteMem)
    (missing : gather read count mem = none) (room : buf + 2 * count < bufmax) :
    (mem2hex read count mem buf out).1 = .busError := by
  induction count generalizing mem buf out with
  | zero => cases missing
  | succ count ih =>
      rw [mem2hex]
      cases here : read mem with
      | none => rfl
      | some byte =>
          dsimp only
          rw [if_pos (by omega)]
          refine ih _ ?_ (by omega)
          rw [gather, here, Option.bind_some] at missing
          exact Option.map_eq_none_iff.1 missing

/-- More bytes than the buffer has room for: the loop leaves the buffer. -/
theorem mem2hex_overrun {read : Nat → Option UInt8} {count mem buf : Nat} (out : ByteMem)
    (found : (gather read count mem).isSome) (full : bufmax ≤ buf + 2 * count) (even : buf % 2 = 0) :
    (mem2hex read count mem buf out).1 = .overrun := by
  induction count generalizing mem buf out with
  | zero =>
      rw [mem2hex, if_neg (by omega)]
  | succ count ih =>
      obtain ⟨bytes, found⟩ := Option.isSome_iff_exists.1 found
      obtain ⟨byte, here, rest⟩ := Option.bind_eq_some_iff.1 found
      obtain ⟨more, later, -⟩ := Option.map_eq_some_iff.1 rest
      rw [mem2hex, here]
      dsimp only
      by_cases room : buf + 1 < bufmax
      · rw [if_pos room]
        exact ih _ (Option.isSome_iff_exists.2 ⟨more, later⟩) (by omega) (by omega)
      · rw [if_neg room]

/-- How `hex2mem` ends. -/
def endedOf (all : Bool) : Ended := if all then .finished else .busError

/-- `hex2mem` puts the decoded bytes into memory as far as it is there. -/
theorem hex2mem_text (present : Nat → Bool) {buffer : ByteMem} (memory : ByteMem) (mem : Nat)
    {count buf : Nat} {text rest : List UInt8} (found : TextAt buffer buf (text ++ rest)) (enough : text.length = 2 * count)
    (fits : buf + text.length < bufmax) : hex2mem present buffer count buf mem memory =
      (endedOf (scatter present memory mem (decoded text)).1, (scatter present memory mem (decoded text)).2) := by
  induction count generalizing buf mem memory text with
  | zero =>
      rw [List.length_eq_zero_iff.1 enough]
      rfl
  | succ count ih =>
      obtain ⟨high, low, text, rfl, even⟩ := pair_cases enough
      obtain ⟨first, second, later⟩ := found
      simp only [List.length_cons] at fits
      rw [hex2mem, if_pos (by omega), decoded, scatter, first, second]
      by_cases there : present mem
      · rw [if_pos there, if_pos there]
        exact ih _ _ later even (by omega)
      · rw [if_neg there, if_neg there]
        rfl

end TrollOS.Gdb
