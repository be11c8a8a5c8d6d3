import Mathlib.Logic.Function.Basic
import TrollOS.Vfs.Components

/-!
# Taking a path apart

`_extract_component` store by store, and the calls that take a whole string apart.  A string is the
list of its bytes before the terminating NUL.
-/

namespace TrollOS.Vfs

/-- The loop of `_extract_component` with room for `left` more bytes: what it stores into
`component`, where it stops, and the rest of the string there. -/
def extractLoop : Nat → Nat → List UInt8 → List (Nat × UInt8) × Nat × List UInt8
  | left + 1, i, char :: rest =>
      if char = slash then ([(i, char)], i, char :: rest)
      else
        let later := extractLoop left (i + 1) rest
        ((i, char) :: later.1, later.2)
  | _, i, str => ([], i, str)

/-- What a call of `_extract_component` returns, and what it stores into `component`. -/
structure Extraction where
  consumed : Nat
  stores : List (Nat × UInt8)

def extraction (str : List UInt8) : Extraction :=
  let ran := extractLoop nameMax 0 str
  ⟨if ran.2.2 ≠ [] then ran.2.1 + 1 else ran.2.1, ran.1 ++ [(ran.2.1, 0)]⟩

def stored (stores : List (Nat × UInt8)) (component : Nat → UInt8) : Nat → UInt8 :=
  stores.foldl (fun buffer store => Function.update buffer store.1 store.2) component

/-- The calls that take a string apart, each with the string it was given. -/
def extractions : Nat → List UInt8 → Option (List (List UInt8 × Extraction))
  | _, [] => some []
  | 0, _ :: _ => none
  | fuel + 1, char :: rest =>
      (extractions fuel ((char :: rest).drop (extraction (char :: rest)).consumed)).map
        ((char :: rest, extraction (char :: rest)) :: ·)

/-- The buffer holds `name` and its NUL. -/
def Holds (buffer : Nat → UInt8) (name : List UInt8) : Prop :=
  (∀ k, ∀ inName : k < name.length, buffer k = name[k]) ∧ buffer name.length = 0

/-- A call stays in its buffer and consumes the component it leaves there and the slash behind it,
or the component at the end of the string. -/
structure Faithful (str : List UInt8) (e : Extraction) : Prop where
  inBuffer : ∀ store ∈ e.stores, store.1 < nameMax + 1
  piece : ∃ name, slash ∉ name ∧ (∀ old, Holds (stored e.stores old) name) ∧
    (str.take e.consumed = name ++ [slash] ∨ (str = name ∧ e.consumed = name.length))

/-- The calls come to the end of the string, and lose nothing on the way. -/
def Lossless (str : List UInt8) : Prop :=
  ∃ fuel calls, extractions fuel str = some calls ∧
    (calls.map fun call => call.1.take call.2.consumed).flatten = str ∧
      ∀ call ∈ calls, Faithful call.1 call.2

/-! ## One call -/

section Call

theorem stored_cons (i : Nat) (char : UInt8) (stores : List (Nat × UInt8)) (old : Nat → UInt8) :
    stored ((i, char) :: stores) old = stored stores (Function.update old i char) := rfl

theorem stored_last (i : Nat) (char : UInt8) (stores : List (Nat × UInt8)) (old : Nat → UInt8) :
    stored (stores ++ [(i, char)]) old = Function.update (stored stores old) i char := by
  unfold stored
  rw [List.foldl_append]
  rfl

/-- A byte that is not stored to. -/
theorem stored_off {stores : List (Nat × UInt8)} {k : Nat} (off : ∀ store ∈ stores, store.1 ≠ k)
    (old : Nat → UInt8) : stored stores old k = old k := by
  induction stores generalizing old with
  | nil => rfl
  | cons store later ih =>
      obtain ⟨i, char⟩ := store
      rw [stored_cons, ih fun other member => off other (List.mem_cons_of_mem _ member)]
      exact Function.update_of_ne (off (i, char) List.mem_cons_self).symm _ _

def taken (left : Nat) (str : List UInt8) : List UInt8 := (str.take left).takeWhile (· != slash)

theorem taken_slash (left : Nat) (rest : List UInt8) : taken (left + 1) (slash :: rest) = [] :=
  List.takeWhile_cons_of_neg (by decide)

theorem taken_other {char : UInt8} (other : char ≠ slash) (left : Nat) (rest : List UInt8) :
    taken (left + 1) (char :: rest) = char :: taken left rest :=
  List.takeWhile_cons_of_pos (bne_iff_ne.2 other)

/-- The loop stores the bytes it takes one after the other. -/
theorem extractLoop_spec (left i : Nat) (str : List UInt8) :
    (extractLoop left i str).2 = (i + (taken left str).length, str.drop (taken left str).length) ∧
      (∀ store ∈ (extractLoop left i str).1, i ≤ store.1 ∧ store.1 < i + left) ∧
      ∀ old k, ∀ inName : k < (taken left str).length,
        stored (extractLoop left i str).1 old (i + k) = (taken left str)[k] := by
  induction left generalizing i str with
  | zero =>
      have none' : taken 0 str = [] := rfl
      have ended : extractLoop 0 i str = ([], i, str) := by
        cases str <;> rfl
      rw [ended, none']
      exact ⟨rfl, fun store member => absurd member List.not_mem_nil, fun _ k inName =>
        absurd inName (Nat.not_lt_zero k)⟩
  | succ left ih =>
      cases str with
      | nil =>
          exact ⟨rfl, fun store member => absurd member List.not_mem_nil, fun _ k inName =>
            absurd inName (Nat.not_lt_zero k)⟩
      | cons char rest =>
          by_cases sep : char = slash
          · subst sep
            have ran : extractLoop (left + 1) i (slash :: rest) = ([(i, slash)], i, slash :: rest) := if_pos rfl
            rw [ran, taken_slash]
            refine ⟨rfl, fun store member => ?_, fun _ k inName => absurd inName (Nat.not_lt_zero k)⟩
            rw [List.mem_singleton.1 member]
            exact ⟨Nat.le_refl i, Nat.lt_add_of_pos_right (Nat.succ_pos left)⟩
          · obtain ⟨ended, places, bytes⟩ := ih (i + 1) rest
            have ran : extractLoop (left + 1) i (char :: rest) =
                ((i, char) :: (extractLoop left (i + 1) rest).1, (extractLoop left (i + 1) rest).2) := if_neg sep
            rw [ran, taken_other sep]
            refine ⟨?_, ?_, ?_⟩
            · rw [ended, List.length_cons, List.drop_succ_cons, Nat.add_assoc, Nat.add_comm 1]
            · intro store member
              rcases List.mem_cons.1 member with first | member
              · rw [first]
                exact ⟨Nat.le_refl i, Nat.lt_add_of_pos_right (Nat.succ_pos left)⟩
              · have place := places store member
                omega
            · intro old k inName
              rw [stored_cons]
              cases k with
              | zero =>
                  rw [Nat.add_zero, stored_off fun store member => by have place := places store member; omega]
                  exact Function.update_self ..
              | succ k =>
                  have later := bytes (Function.update old i char) k (Nat.lt_of_succ_lt_succ inName)
                  rw [Nat.add_assoc, Nat.add_comm 1] at later
                  exact later

theorem taken_length (str : List UInt8) :
    (taken nameMax str).length ≤ nameMax ∧ (taken nameMax str).length ≤ str.length := by
  have shorter := (List.takeWhile_prefix (l := str.take nameMax) (· != slash)).length_le
  rw [List.length_take] at shorter
  exact ⟨Nat.le_trans shorter (Nat.min_le_left _ _), Nat.le_trans shorter (Nat.min_le_right _ _)⟩

theorem extractComponent_eq (str : List UInt8) : extractComponent str =
    (if (taken nameMax str).length < str.length then (taken nameMax str).length + 1
      else (taken nameMax str).length, taken nameMax str) := by
  unfold extractComponent taken
  dsimp only
  split <;> rfl

/-- `_extract_component` returns what its model computes, and leaves the component in the buffer. -/
theorem extraction_spec (str : List UInt8) :
    (extraction str).consumed = (extractComponent str).1 ∧
      (∀ store ∈ (extraction str).stores, store.1 < nameMax + 1) ∧
      ∀ old, Holds (stored (extraction str).stores old) (extractComponent str).2 := by
  obtain ⟨ended, places, bytes⟩ := extractLoop_spec nameMax 0 str
  obtain ⟨fits, -⟩ := taken_length str
  rw [Nat.zero_add] at ended
  rw [extractComponent_eq]
  unfold extraction
  dsimp only
  rw [ended]
  refine ⟨?_, ?_, fun old => ⟨fun k inName => ?_, ?_⟩⟩
  · dsimp only
    by_cases more : (taken nameMax str).length < str.length
    · rw [if_pos more, if_pos fun none' => Nat.not_le_of_lt more (List.drop_eq_nil_iff.1 none')]
    · rw [if_neg more, if_neg (not_not.2 (List.drop_eq_nil_iff.2 (Nat.le_of_not_lt more)))]
  · intro store member
    rcases List.mem_append.1 member with member | last
    · have place := places store member
      omega
    · rw [List.mem_singleton.1 last]
      exact Nat.lt_succ_of_le fits
  · have byte := bytes old k inName
    rw [Nat.zero_add] at byte
    rw [stored_last, Function.update_of_ne (Nat.ne_of_lt inName)]
    exact byte
  · rw [stored_last]
    exact Function.update_self ..

/-- What is stored is at most as long as the buffer. -/
theorem Holds.short {str name : List UInt8} (held : ∀ old, Holds (stored (extraction str).stores old) name) :
    name.length ≤ nameMax := by
  by_contra long
  obtain ⟨-, inBuffer, -⟩ := extraction_spec str
  have beyond : ∀ store ∈ (extraction str).stores, store.1 ≠ name.length := fun store member => by
    have place := inBuffer store member
    omega
  have zero := (held fun _ => 1).2
  rw [stored_off beyond] at zero
  exact absurd zero (by decide)

end Call

/-! ## All calls -/

section Calls

theorem shortNames_name {name : List UInt8} (whole : slash ∉ name) (short : name.length ≤ nameMax) :
    ShortNames name := by
  intro other member
  rw [components_single whole] at member
  rw [List.mem_singleton.1 (List.mem_filter.1 member).1]
  exact short

theorem shortNames_append {name rest : List UInt8} (whole : slash ∉ name) (short : name.length ≤ nameMax)
    (later : ShortNames rest) : ShortNames (name ++ slash :: rest) := by
  intro other member
  rw [components_append whole] at member
  rcases List.mem_append.1 member with here | there
  · exact shortNames_name whole short other here
  · exact later other there

/-- A faithful call on a string whose rest has short names. -/
theorem Faithful.short {str : List UInt8} (faithful : Faithful str (extraction str))
    (later : ShortNames (str.drop (extraction str).consumed)) : ShortNames str := by
  obtain ⟨-, name, whole, held, consumed | ⟨same, -⟩⟩ := faithful
  · have split := List.take_append_drop (extraction str).consumed str
    rw [consumed, List.append_assoc] at split
    rw [← split]
    exact shortNames_append whole (Holds.short held) later
  · rw [same]
    exact shortNames_name whole (Holds.short held)

theorem extractions_cons {fuel : Nat} {char : UInt8} {rest : List UInt8} {calls : List (List UInt8 × Extraction)}
    (ran : extractions (fuel + 1) (char :: rest) = some calls) : ∃ later, calls =
      (char :: rest, extraction (char :: rest)) :: later ∧
        extractions fuel ((char :: rest).drop (extraction (char :: rest)).consumed) = some later := by
  obtain ⟨later, there, same⟩ := Option.map_eq_some_iff.1 ran
  exact ⟨later, same.symm, there⟩

/-- Where nothing is lost, all names are short. -/
theorem extractions_short (fuel : Nat) {str : List UInt8} {calls : List (List UInt8 × Extraction)}
    (ran : extractions fuel str = some calls) (faithful : ∀ call ∈ calls, Faithful call.1 call.2) :
    ShortNames str := by
  induction fuel generalizing str calls with
  | zero =>
      cases str with
      | nil => exact fun name member => absurd member List.not_mem_nil
      | cons char rest => exact absurd ran (Option.some_ne_none _).symm
  | succ fuel ih =>
      cases str with
      | nil => exact fun name member => absurd member List.not_mem_nil
      | cons char rest =>
          obtain ⟨later, rfl, there⟩ := extractions_cons ran
          exact (faithful _ List.mem_cons_self).short
            (ih there fun call member => faithful call (List.mem_cons_of_mem _ member))

/-- A call on a string with short names. -/
theorem extraction_faithful {str : List UInt8} (short : ShortNames str) : Faithful str (extraction str) := by
  obtain ⟨consumed, inBuffer, held⟩ := extraction_spec str
  rcases name_cases str with whole | ⟨name, rest, rfl, whole⟩
  · have bound : str.length ≤ nameMax :=
      @short_of_components str str [] short whole (List.append_nil _).symm
    rw [extract_name whole bound] at consumed held
    exact ⟨inBuffer, str, whole, held, Or.inr ⟨rfl, consumed⟩⟩
  · have bound : name.length ≤ nameMax := short_of_components short whole (components_append whole rest)
    rw [extract_slash whole bound] at consumed held
    refine ⟨inBuffer, name, whole, held, Or.inl ?_⟩
    rw [consumed, List.take_append, List.take_of_length_le (Nat.le_succ _), Nat.add_sub_cancel_left]
    rfl

theorem extractions_lossless (fuel : Nat) {str : List UInt8} (enough : str.length ≤ fuel)
    (short : ShortNames str) : ∃ calls, extractions fuel str = some calls ∧
      (calls.map fun call => call.1.take call.2.consumed).flatten = str ∧
        ∀ call ∈ calls, Faithful call.1 call.2 := by
  induction fuel generalizing str with
  | zero =>
      rw [List.length_eq_zero_iff.1 (Nat.le_zero.1 enough)]
      exact ⟨[], rfl, rfl, fun call member => absurd member List.not_mem_nil⟩
  | succ fuel ih =>
      cases str with
      | nil => exact ⟨[], rfl, rfl, fun call member => absurd member List.not_mem_nil⟩
      | cons char rest =>
          obtain ⟨consumed, -, -⟩ := extraction_spec (char :: rest)
          have less := drop_extract_le (List.cons_ne_nil char rest) enough
          have later := (extract_spec short).2
          rw [← consumed] at less later
          obtain ⟨calls, ran, whole, faithful⟩ := ih less later
          refine ⟨_, congrArg (Option.map _) ran, ?_, ?_⟩
          · rw [List.map_cons, List.flatten_cons, whole]
            exact List.take_append_drop _ _
          · intro call member
            rcases List.mem_cons.1 member with first | member
            · rw [first]
              exact extraction_faithful short
            · exact faithful call member

end Calls

/-- Taking a string apart loses nothing exactly when every name in it fits into the buffer. -/
theorem lossless_iff (str : List UInt8) : Lossless str ↔ ShortNames str := by
  constructor
  · rintro ⟨fuel, calls, ran, -, faithful⟩
    exact extractions_short fuel ran faithful
  · intro short
    exact ⟨str.length, extractions_lossless str.length (Nat.le_refl _) short⟩

/-- A name one byte longer than the buffer has room for. -/
theorem long_name_split : ¬ Lossless (List.replicate (nameMax + 1) 97) := by
  rintro ⟨fuel, calls, ran, -, faithful⟩
  have whole : slash ∉ List.replicate (nameMax + 1) (97 : UInt8) := fun member =>
    absurd (List.eq_of_mem_replicate member) (by decide)
  have member : List.replicate (nameMax + 1) (97 : UInt8) ∈ components (List.replicate (nameMax + 1) 97) := by
    rw [components_name whole (List.cons_ne_nil _ _)]
    exact List.mem_singleton_self _
  have short := extractions_short fuel ran faithful _ member
  rw [List.length_replicate] at short
  exact Nat.not_succ_le_self nameMax short

end TrollOS.Vfs
