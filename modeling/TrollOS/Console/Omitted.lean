import TrollOS.Console.Movement

/-!
# Omitted parameters

The parser stores -1 for a parameter that is left empty, and counts it.  `_csi` takes that for
the default where it looks for a positive number; where it looks for 0, or at the number of
parameters, the empty parameter is another one.
-/

namespace TrollOS.Console

variable {β : Type}

/-- The default of the parameters of a command. -/
def Command.default : Command → Fin 10
  | .eraseLines | .eraseOnLine | .attributes => 0
  | _ => 1

/-- The parameters with the defaults written out; `H` and `f` have two. -/
def writtenOut (cmd : Command) (params : List (List (Fin 10))) : List (List (Fin 10)) :=
  (params.map fun digits => if digits = [] then [cmd.default] else digits) ++
    if cmd = .position ∧ params.length = 1 then [[1]] else []

/-- Nothing tells two consoles apart but what is left in the argument array. -/
def SameEffect (s t : State β) : Prop := s.shown = t.shown ∧ s.parser.state = t.parser.state

/-! ## Attributes -/

inductive Attribute where
  | foreground
  | background
  | bold
  deriving DecidableEq, Repr

namespace Attribute

def default : Attribute → Nat
  | foreground => lightGray
  | background => black
  | bold => 0

def of (s : State β) : Attribute → Nat
  | foreground => s.colorFg
  | background => s.colorBg
  | bold => s.bold.toNat

/-- What an argument sets an attribute to, if it does. -/
def sets (value : Int) : Attribute → Option Nat
  | foreground =>
      if value = 0 ∨ value = 39 then some lightGray
      else if 30 < value ∧ value < 38 then some (value - 30).toNat
      else none
  | background =>
      if value = 0 ∨ value = 49 then some black
      else if 40 < value ∧ value < 48 then some (value - 40).toNat
      else none
  | bold => if value = 0 ∨ value = 22 then some 0 else if value = 1 then some 1 else none

/-- An attribute after some parameters: an empty one leaves it alone. -/
def reached (a : Attribute) (start : Nat) (params : List (Option Nat)) : Nat :=
  params.foldl (fun v p => (a.sets (stored p)).getD v) start

variable {a : Attribute} {start : Nat} {params before after : List (Option Nat)}

theorem of_setAttribute (a : Attribute) (s : State β) (value : Int) :
    a.of (s.setAttribute value) = (a.sets value).getD (a.of s) := by
  unfold State.setAttribute State.resetAttributes
  cases a with
  | foreground =>
      dsimp only [of, sets]
      split_ifs <;> first | rfl | omega
  | background =>
      dsimp only [of, sets]
      split_ifs <;> first | rfl | omega
  | bold =>
      dsimp only [of, sets]
      split_ifs <;> first | rfl | omega

theorem of_foldl (a : Attribute) (s : State β) (params : List (Option Nat)) :
    a.of ((params.map stored).foldl State.setAttribute s) = a.reached (a.of s) params := by
  induction params generalizing s with
  | nil => rfl
  | cons p rest ih =>
      rw [List.map_cons, List.foldl_cons, ih, of_setAttribute]
      rfl

theorem sets_zero (a : Attribute) : a.sets 0 = some a.default := by
  cases a with
  | foreground => rfl
  | background => rfl
  | bold => rfl

theorem sets_empty (a : Attribute) : a.sets (stored none) = none := by
  cases a with
  | foreground => rfl
  | background => rfl
  | bold => rfl

theorem reached_append (a : Attribute) (start : Nat) (before after : List (Option Nat)) :
    a.reached start (before ++ after) = a.reached (a.reached start before) after := List.foldl_append

theorem reached_empty (a : Attribute) (start : Nat) (after : List (Option Nat)) :
    a.reached start (none :: after) = a.reached start after := by
  unfold reached
  rw [List.foldl_cons, sets_empty, Option.getD_none]

theorem reached_zero (a : Attribute) (start : Nat) (after : List (Option Nat)) :
    a.reached start (some 0 :: after) = a.reached a.default after := by
  have zero : stored (some 0) = 0 := rfl
  unfold reached
  rw [List.foldl_cons, zero, sets_zero, Option.getD_some]

/-- Where two runs of the same parameters end is the same if a parameter sets the attribute, and
else if it was the same before. -/
theorem reached_eq_iff (left right : Nat) :
    a.reached left after = a.reached right after ↔
      left = right ∨ ∃ p ∈ after, a.sets (stored p) ≠ none := by
  induction after generalizing left right with
  | nil =>
      constructor
      · exact .inl
      · rintro (same | ⟨p, member, -⟩)
        · exact same
        · exact nomatch member
  | cons p rest ih =>
      show a.reached ((a.sets (stored p)).getD left) rest = a.reached ((a.sets (stored p)).getD right) rest ↔ _
      rw [ih]
      cases setsTo : a.sets (stored p) with
      | none =>
          rw [Option.getD_none, Option.getD_none]
          constructor
          · rintro (same | ⟨q, member, sets⟩)
            · exact .inl same
            · exact .inr ⟨q, List.mem_cons_of_mem _ member, sets⟩
          · rintro (same | ⟨q, member, sets⟩)
            · exact .inl same
            · rcases List.mem_cons.mp member with rfl | later
              · exact absurd setsTo sets
              · exact .inr ⟨q, later, sets⟩
      | some v =>
          rw [Option.getD_some, Option.getD_some]
          refine ⟨fun _ => .inr ⟨p, List.mem_cons_self, ?_⟩, fun _ => .inl rfl⟩
          rw [setsTo]
          exact Option.some_ne_none v

def zeros (params : List (Option Nat)) : List (Option Nat) := params.map fun p => some (p.getD 0)

theorem zeros_full (full : none ∉ params) : zeros params = params := by
  refine (List.map_congr_left fun p member => ?_).trans (List.map_id params)
  cases p with
  | none => exact absurd member full
  | some n => rfl

/-- The last empty parameter. -/
theorem last_empty (member : none ∈ params) :
    ∃ before after, params = before ++ none :: after ∧ none ∉ after := by
  induction params with
  | nil => exact nomatch member
  | cons p rest ih =>
      by_cases later : none ∈ rest
      · obtain ⟨before, after, split, full⟩ := ih later
        exact ⟨p :: before, after, congrArg (p :: ·) split, full⟩
      · refine ⟨[], rest, ?_, later⟩
        rw [(List.mem_cons.mp member).resolve_right later]
        rfl

/-- The attribute has its default where the last empty parameter is reached, or a later parameter
sets it. -/
def Settled (a : Attribute) (start : Nat) (params : List (Option Nat)) : Prop :=
  ∀ before after, params = before ++ none :: after → none ∉ after →
    a.reached start before = a.default ∨ ∃ p ∈ after, a.sets (stored p) ≠ none

theorem reached_zeros_iff :
    a.reached start params = a.reached start (zeros params) ↔ a.Settled start params := by
  have split_iff (before after : List (Option Nat)) (split : params = before ++ none :: after)
      (full : none ∉ after) : a.reached start params = a.reached start (zeros params) ↔
        a.reached start before = a.default ∨ ∃ p ∈ after, a.sets (stored p) ≠ none := by
    have filled : zeros params = zeros before ++ some 0 :: after := by
      rw [split, zeros, List.map_append, List.map_cons]
      exact congrArg (fun rest => zeros before ++ some 0 :: rest) (zeros_full full)
    rw [filled, split, reached_append, reached_append, reached_empty, reached_zero]
    exact reached_eq_iff _ _
  constructor
  · exact fun same before after split full => (split_iff before after split full).mp same
  · intro settled
    by_cases empty : none ∈ params
    · obtain ⟨before, after, split, full⟩ := last_empty empty
      exact (split_iff before after split full).mpr (settled before after split full)
    · rw [zeros_full empty]

end Attribute

/-! ## One sequence and the one with the defaults -/

namespace State

/-- When a sequence means what it means with its defaults written out. -/
def MeansDefaults (ops : Backend β) (s : State β) (params : List (Option Nat)) : Command → Prop
  | .position =>
      params.length = 1 →
        ops.setCursor s.backend (unsigned (ops.getCursor s.backend).1)
            (unsigned (count (params.map stored) - 1)) =
          ops.setCursor s.backend 0 (unsigned (count (params.map stored) - 1))
  | .eraseLines =>
      params.head? = some none → ops.clearLines s.backend .both = ops.clearLines s.backend .forward
  | .eraseOnLine =>
      params.head? = some none → ops.clearOnLine s.backend .both = ops.clearOnLine s.backend .forward
  | .attributes => ∀ a : Attribute, a.Settled (a.of s) params
  | _ => True

variable {s t : State β} {params : List (Option Nat)}

/-- The parameters as the parser finds them when the defaults are written out. -/
def filled (cmd : Command) (params : List (Option Nat)) : List (Option Nat) :=
  (params.map fun p => some (p.getD cmd.default)) ++
    if cmd = .position ∧ params.length = 1 then [some 1] else []

theorem value_append (digits : List (Fin 10)) (d : Fin 10) :
    value (digits ++ [d]) = some ((value digits).getD 0 * 10 + d) := by
  unfold value
  rw [List.foldl_append]
  rfl

theorem value_fill (digits : List (Fin 10)) (d : Fin 10) :
    value (if digits = [] then [d] else digits) = some ((value digits).getD d) := by
  induction digits using List.reverseRecOn with
  | nil =>
      rw [if_pos rfl]
      show some (0 * 10 + (d : Nat)) = some (d : Nat)
      rw [Nat.zero_mul, Nat.zero_add]
  | append_singleton digits last _ =>
      rw [if_neg (by simp), value_append]
      rfl

theorem value_writtenOut (cmd : Command) (params : List (List (Fin 10))) :
    (writtenOut cmd params).map value = filled cmd (params.map value) := by
  unfold writtenOut filled
  rw [List.map_append, List.map_map, List.map_map, List.length_map]
  congr 1
  · exact List.map_congr_left fun digits _ => value_fill digits cmd.default
  · split
    · rfl
    · rfl

theorem stored_digit (d : Fin 10) : stored (some d.val) = d.val := by
  have small := d.isLt
  exact signed_eq (by omega)

/-- A first parameter that is empty counts as 1. -/
theorem count_filled {cmd : Command} (one : cmd.default = 1) (some : params ≠ []) :
    count ((filled cmd params).map stored) = count (params.map stored) := by
  cases params with
  | nil => exact absurd rfl some
  | cons p rest =>
      unfold filled count
      rw [List.map_cons, List.cons_append, List.map_cons, List.map_cons, List.headD_cons, List.headD_cons, one]
      cases p with
      | none =>
          rw [Option.getD_none, stored_digit]
          rfl
      | some n => rfl

theorem directionOf_filled {cmd : Command} (zero : cmd.default = 0) (some : params ≠ []) :
    directionOf (((filled cmd params).map stored).headD 0) =
      if params.head? = Option.some none then .forward else directionOf ((params.map stored).headD 0) := by
  cases params with
  | nil => exact absurd rfl some
  | cons p rest =>
      unfold filled
      rw [List.map_cons, List.cons_append, List.map_cons, List.map_cons, List.headD_cons, List.headD_cons,
        zero, List.head?_cons]
      cases p with
      | none =>
          rw [Option.getD_none, stored_digit, if_pos rfl]
          rfl
      | some n =>
          rw [Option.getD_some, if_neg (by simp)]

/-- An empty first parameter of `J` and `K` means both directions. -/
theorem directionOf_empty (first : params.head? = some none) :
    directionOf ((params.map stored).headD 0) = .both := by
  cases params with
  | nil => exact nomatch first
  | cons p rest =>
      obtain rfl := Option.some.inj first
      rfl

theorem toNat_injective : Function.Injective Bool.toNat := fun left right => by
  revert left right
  decide

/-- The attributes and the rest of the console. -/
theorem shown_eq_iff (backend : s.backend = t.backend) (savedX : s.savedX = t.savedX)
    (savedY : s.savedY = t.savedY) : s.shown = t.shown ↔ ∀ a : Attribute, a.of s = a.of t := by
  constructor
  · intro same a
    obtain ⟨-, bold, colorFg, colorBg, -, -⟩ := by simpa only [shown, Prod.mk.injEq] using same
    cases a with
    | foreground => exact colorFg
    | background => exact colorBg
    | bold => exact congrArg Bool.toNat bold
  · intro same
    have bold : s.bold = t.bold := toNat_injective (same .bold)
    have colorFg : s.colorFg = t.colorFg := same .foreground
    have colorBg : s.colorBg = t.colorBg := same .background
    unfold shown
    rw [backend, bold, colorFg, colorBg, savedX, savedY]

/-- The arguments of `m` change attributes only. -/
theorem foldl_setAttribute_rest (s : State β) (args : List Int) :
    (args.foldl setAttribute s).backend = s.backend ∧ (args.foldl setAttribute s).savedX = s.savedX ∧
      (args.foldl setAttribute s).savedY = s.savedY := by
  induction args generalizing s with
  | nil => exact ⟨rfl, rfl, rfl⟩
  | cons value rest ih =>
      rw [List.foldl_cons]
      obtain ⟨backend, savedX, savedY⟩ := ih (s.setAttribute value)
      have one : (s.setAttribute value).backend = s.backend ∧ (s.setAttribute value).savedX = s.savedX ∧
          (s.setAttribute value).savedY = s.savedY := by
        unfold setAttribute resetAttributes
        split_ifs <;> exact ⟨rfl, rfl, rfl⟩
      exact ⟨backend.trans one.1, savedX.trans one.2.1, savedY.trans one.2.2⟩

theorem attributes_effect (ops : Backend β) (s : State β) (params : List (Option Nat)) :
    (effect ops s (params.map stored) .attributes).shown =
        (effect ops s ((filled .attributes params).map stored) .attributes).shown ↔
      ∀ a : Attribute, a.Settled (a.of s) params := by
  have zeros : filled .attributes params = Attribute.zeros params := List.append_nil _
  obtain ⟨backend, savedX, savedY⟩ := foldl_setAttribute_rest s (params.map stored)
  obtain ⟨backend', savedX', savedY'⟩ := foldl_setAttribute_rest s ((Attribute.zeros params).map stored)
  rw [zeros]
  unfold effect
  rw [shown_eq_iff (backend.trans backend'.symm) (savedX.trans savedX'.symm) (savedY.trans savedY'.symm)]
  refine forall_congr' fun a => ?_
  rw [Attribute.of_foldl, Attribute.of_foldl]
  exact Attribute.reached_zeros_iff

/-- Two states that differ in the backend at most. -/
theorem shown_backend_iff (s : State β) (left right : β) :
    ({ s with backend := left } : State β).shown = ({ s with backend := right } : State β).shown ↔
      left = right := by
  constructor
  · exact fun same => (Prod.mk.inj same).1
  · exact fun same => by rw [same]

/-- With two parameters both are there, and an empty one counts as 1. -/
theorem position_effect (ops : Backend β) (s : State β) (some : params ≠ []) :
    (effect ops s (params.map stored) .position).shown =
        (effect ops s ((filled .position params).map stored) .position).shown ↔
      MeansDefaults ops s params .position := by
  have counts := @count_filled params .position rfl some
  have unit : stored (Option.some 1) = 1 := signed_eq (by decide)
  unfold effect MeansDefaults
  dsimp only
  rw [counts]
  cases params with
  | nil => exact absurd rfl some
  | cons p rest =>
      cases rest with
      | nil =>
          have column : ((filled .position [p]).map stored)[1]? = Option.some 1 := congrArg Option.some unit
          rw [column]
          constructor
          · intro same _
            exact (shown_backend_iff s _ _).mp same
          · intro same
            exact (shown_backend_iff s _ _).mpr (same rfl)
      | cons q rest =>
          have more : ¬ (p :: q :: rest).length = 1 := by simp
          have written : ((filled .position (p :: q :: rest)).map stored)[1]? =
              Option.some (stored (Option.some (q.getD 1))) := by
            unfold filled
            rw [if_neg fun both => more both.2]
            rfl
          rw [written]
          refine ⟨fun _ one => absurd one more, fun _ => ?_⟩
          cases q with
          | none =>
              rw [Option.getD_none, unit]
              rfl
          | some n => rfl

/-- The effects of a sequence and of the one with the defaults written out. -/
theorem effect_filled (ops : Backend β) (s : State β) (some : params ≠ []) (cmd : Command) :
    (effect ops s (params.map stored) cmd).shown =
        (effect ops s ((filled cmd params).map stored) cmd).shown ↔ MeansDefaults ops s params cmd := by
  cases cmd with
  | up | down | right | left | nextLine | previousLine | column | scrollUp | scrollDown =>
      unfold effect
      dsimp only
      rw [count_filled rfl some]
      exact ⟨fun _ => trivial, fun _ => rfl⟩
  | save | restore | other => exact ⟨fun _ => trivial, fun _ => rfl⟩
  | position => exact position_effect ops s some
  | attributes => exact attributes_effect ops s params
  | eraseLines | eraseOnLine =>
      unfold effect MeansDefaults
      dsimp only
      rw [directionOf_filled rfl some]
      by_cases first : params.head? = Option.some none
      · rw [if_pos first, directionOf_empty first]
        exact (shown_backend_iff s _ _).trans ⟨fun same _ => same, fun same => same first⟩
      · rw [if_neg first]
        exact ⟨fun _ empty => absurd empty first, fun _ => rfl⟩

end State

/-- On every console that reads characters, a sequence of a command it knows with at most ten
parameters has the effect of the sequence with the defaults written out exactly when it means
its defaults. -/
theorem omitted_parameters_iff (ops : Backend β) (s : State β) (ascii : s.parser.state = .ascii)
    {params : List (List (Fin 10))} (some : params ≠ []) (few : params.length ≤ 10) {final : UInt8}
    (supported : Command.ofChar (toChar final) ≠ .other) {bufs bufs' : List (List UInt8)}
    (text : bufs.flatten = sequenceText params final)
    (text' : bufs'.flatten = sequenceText (writtenOut (Command.ofChar (toChar final)) params) final) :
    ∃ t t', s.writes ops bufs = Option.some t ∧ s.writes ops bufs' = Option.some t' ∧
      (SameEffect t t' ↔ s.MeansDefaults ops (params.map value) (Command.ofChar (toChar final))) := by
  have some' : writtenOut (Command.ofChar (toChar final)) params ≠ [] := by
    unfold writtenOut
    simp [some]
  have few' : (writtenOut (Command.ofChar (toChar final)) params).length ≤ 10 := by
    unfold writtenOut
    rw [List.length_append, List.length_map]
    split
    · next one =>
        rw [one.2]
        decide
    · exact few
  obtain ⟨t, ran, state, shown⟩ := State.sequence_effect ops s ascii some few supported
  obtain ⟨t', ran', state', shown'⟩ := State.sequence_effect ops s ascii some' few' supported
  refine ⟨t, t', by rw [State.writes_eq, text, ran], by rw [State.writes_eq, text', ran'], ?_⟩
  have values : params.map value ≠ [] := by simpa using some
  rw [State.value_writtenOut] at shown'
  unfold SameEffect
  rw [shown, shown', State.effect_filled ops s values]
  exact ⟨fun both => both.1, fun means => ⟨means, state.trans state'.symm⟩⟩

/-- `ESC [ ; 5 H`: the line is left empty. -/
theorem omitted_line : ∃ t t', (boot (some bootScreen)).writes consoleFb [[27, 91, 59, 53, 72]] = some t ∧
    (boot (some bootScreen)).writes consoleFb [[27, 91, 49, 59, 53, 72]] = some t' ∧
      (SameEffect t t' ↔ (boot (some bootScreen)).MeansDefaults consoleFb [none, some 5] .position) :=
  @omitted_parameters_iff _ consoleFb (boot (some bootScreen)) rfl [[], [5]] (List.cons_ne_nil _ _)
    (by decide) 72 (by decide) [[27, 91, 59, 53, 72]] [[27, 91, 49, 59, 53, 72]] rfl rfl

/-- With bright red text selected, `ESC [ m` changes nothing and `ESC [ 0 m` resets the attributes. -/
theorem empty_attribute_ignored :
    ∃ s, (boot (some bootScreen)).writes consoleFb [[27, 91, 49, 59, 51, 49, 109]] = some s ∧
      s.bold = true ∧ s.colorFg = 1 ∧
        (s.writes consoleFb [sequenceText [[]] 109]).map (fun t => (t.bold, t.colorFg)) = some (true, 1) ∧
          (s.writes consoleFb [sequenceText (writtenOut .attributes [[]]) 109]).map
            (fun t => (t.bold, t.colorFg)) = some (false, 7) := by
  refine ⟨_, rfl, rfl, rfl, ?_, ?_⟩
  · decide +kernel
  · decide +kernel

end TrollOS.Console
