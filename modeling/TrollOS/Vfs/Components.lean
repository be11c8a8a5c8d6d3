import TrollOS.Vfs.Model

/-!
# The components of a path

Two readings of an absolute path.  `components` is the meaning: split on `/`
and drop what is empty.  `pieces` is the sequence `_resolv_ino` extracts, in
which a repeated slash after the first component leaves empty names behind.
The nonempty pieces are the components.
-/

namespace TrollOS.Vfs

/-- Split on `/`, without the empty components. -/
def components (path : List UInt8) : List (List UInt8) :=
  (path.splitOn slash).filter (· ≠ [])

def pieces : Nat → List UInt8 → List (List UInt8)
  | 0, _ => []
  | _ + 1, [] => []
  | fuel + 1, char :: rest =>
      (extractComponent (char :: rest)).2 ::
        pieces fuel ((char :: rest).drop (extractComponent (char :: rest)).1)

/-- What is left after the first component and the slashes behind it. -/
def afterFirst (tail : List UInt8) : List UInt8 :=
  (tail.drop (extractComponent tail).1).dropWhile (· == slash)

/-- Everything `_resolv_ino` extracts from the path `/` followed by `tail`. -/
def allPieces (tail : List UInt8) : List (List UInt8) :=
  (extractComponent tail).2 :: pieces (tail.length + 1) (afterFirst tail)

theorem components_nil : components [] = [] := rfl

theorem components_slash (rest : List UInt8) : components (slash :: rest) = components rest := by
  have split : (slash :: rest).splitOn slash = [] :: rest.splitOn slash :=
    List.splitOn_append_cons_self_of_not_mem List.not_mem_nil rest
  unfold components
  rw [split]
  rfl

theorem components_single {name : List UInt8} (whole : slash ∉ name) :
    components name = [name].filter (· ≠ []) := by
  unfold components
  rw [List.splitOn_eq_singleton whole]

theorem components_name {name : List UInt8} (whole : slash ∉ name) (nonempty : name ≠ []) :
    components name = [name] := by
  rw [components_single whole]
  exact List.filter_cons_of_pos (p := fun c => decide (c ≠ [])) (decide_eq_true nonempty)

theorem components_append {name : List UInt8} (whole : slash ∉ name) (rest : List UInt8) :
    components (name ++ slash :: rest) = components name ++ components rest := by
  have split : (name ++ slash :: rest).splitOn slash = name :: rest.splitOn slash :=
    List.splitOn_append_cons_self_of_not_mem whole rest
  unfold components
  rw [split, List.splitOn_eq_singleton whole, ← List.filter_append]
  rfl

theorem components_dropWhile (str : List UInt8) :
    components (str.dropWhile (· == slash)) = components str := by
  induction str with
  | nil => rfl
  | cons char rest ih =>
      by_cases sep : char = slash
      · subst sep
        rw [List.dropWhile_cons_of_pos (p := fun c => c == slash) (beq_self_eq_true slash), ih, components_slash]
      · rw [List.dropWhile_cons_of_neg (p := fun c => c == slash) (by rw [beq_eq_false_iff_ne.mpr sep]; exact Bool.false_ne_true)]

/-- No component of `str` is longer than the buffer `_resolv_ino` has for it. -/
def ShortNames (str : List UInt8) : Prop :=
  ∀ name ∈ components str, name.length ≤ nameMax

theorem takeWhile_name {name : List UInt8} (whole : slash ∉ name) (rest : List UInt8) :
    (name ++ rest).takeWhile (· != slash) = name ++ rest.takeWhile (· != slash) :=
  List.takeWhile_append_of_pos fun _ member =>
    bne_iff_ne.mpr fun same => whole (same ▸ member)

theorem extract_name {name : List UInt8} (whole : slash ∉ name) (short : name.length ≤ nameMax) :
    extractComponent name = (name.length, name) := by
  have taken : (name.take nameMax).takeWhile (· != slash) = name := by
    rw [List.take_of_length_le short, ← List.append_nil name, takeWhile_name whole]
    rfl
  unfold extractComponent
  rw [taken]
  exact if_neg (Nat.lt_irrefl _)

theorem extract_slash {name : List UInt8} (whole : slash ∉ name) (short : name.length ≤ nameMax)
    (rest : List UInt8) :
    extractComponent (name ++ slash :: rest) = (name.length + 1, name) := by
  have taken : ((name ++ slash :: rest).take nameMax).takeWhile (· != slash) = name := by
    rw [List.take_append, List.take_of_length_le short, takeWhile_name whole]
    cases nameMax - name.length with
    | zero => exact List.append_nil name
    | succ more =>
        rw [List.take_succ_cons, List.takeWhile_cons_of_neg (by decide)]
        exact List.append_nil name
  unfold extractComponent
  rw [taken]
  exact if_pos (by rw [List.length_append]; exact Nat.lt_add_of_pos_right (Nat.succ_pos _))

theorem drop_name (name rest : List UInt8) : (name ++ slash :: rest).drop (name.length + 1) = rest := by
  rw [List.drop_append, List.drop_of_length_le (Nat.le_succ _), Nat.add_sub_cancel_left]
  rfl

theorem pieces_nil (fuel : Nat) : pieces fuel [] = [] := by
  cases fuel with
  | zero => rfl
  | succ fuel => rfl

theorem pieces_succ {str : List UInt8} (more : str ≠ []) (fuel : Nat) :
    pieces (fuel + 1) str =
      (extractComponent str).2 :: pieces fuel (str.drop (extractComponent str).1) := by
  cases str with
  | nil => exact absurd rfl more
  | cons char rest => rfl

/-- A string ends with its first name, or goes on behind a slash. -/
theorem name_cases (str : List UInt8) :
    slash ∉ str ∨ ∃ name rest, str = name ++ slash :: rest ∧ slash ∉ name := by
  by_cases sep : slash ∈ str
  · exact Or.inr (List.eq_append_cons_of_mem sep)
  · exact Or.inl sep

theorem short_of_components {str name : List UInt8} {others : List (List UInt8)}
    (short : ShortNames str) (whole : slash ∉ name)
    (parts : components str = components name ++ others) : name.length ≤ nameMax := by
  by_cases nonempty : name = []
  · subst nonempty
    exact Nat.zero_le _
  · apply short
    rw [parts, components_name whole nonempty]
    exact List.mem_append_left _ (List.mem_singleton_self name)

theorem extract_pos {str : List UInt8} (more : str ≠ []) : 0 < (extractComponent str).1 := by
  unfold extractComponent
  dsimp only
  split
  · exact Nat.succ_pos _
  · rename_i whole
    exact Nat.lt_of_lt_of_le (List.length_pos_iff.mpr more) (Nat.le_of_not_lt whole)

theorem drop_extract_le {str : List UInt8} {fuel : Nat} (more : str ≠ [])
    (enough : str.length ≤ fuel + 1) : (str.drop (extractComponent str).1).length ≤ fuel := by
  have progress := extract_pos more
  rw [List.length_drop]
  omega

theorem afterFirst_length (tail : List UInt8) : (afterFirst tail).length ≤ tail.length + 1 := by
  have skipped := (List.dropWhile_suffix (l := tail.drop (extractComponent tail).1)
    (· == slash)).length_le
  have dropped : (tail.drop (extractComponent tail).1).length ≤ tail.length :=
    (List.drop_suffix _ _).length_le
  exact Nat.le_succ_of_le (Nat.le_trans skipped dropped)

/-- The extraction takes the first name and leaves the rest of the components. -/
theorem extract_spec {str : List UInt8} (short : ShortNames str) :
    components str = [(extractComponent str).2].filter (· ≠ []) ++
        components (str.drop (extractComponent str).1) ∧
      ShortNames (str.drop (extractComponent str).1) := by
  rcases name_cases str with whole | ⟨name, rest, rfl, whole⟩
  · have bound : str.length ≤ nameMax :=
      @short_of_components str str [] short whole (List.append_nil _).symm
    rw [extract_name whole bound, List.drop_length]
    refine ⟨?_, fun name member => absurd member List.not_mem_nil⟩
    rw [components_nil, List.append_nil]
    exact components_single whole
  · have bound : name.length ≤ nameMax :=
      short_of_components short whole (components_append whole rest)
    rw [extract_slash whole bound]
    dsimp only
    rw [drop_name, components_append whole rest]
    refine ⟨?_, fun other member => short other ?_⟩
    · rw [components_single whole]
    · rw [components_append whole rest]
      exact List.mem_append_right _ member

theorem pieces_components (fuel : Nat) {str : List UInt8} (enough : str.length ≤ fuel)
    (short : ShortNames str) : (pieces fuel str).filter (· ≠ []) = components str := by
  induction fuel generalizing str with
  | zero =>
      have none : str = [] := List.length_eq_zero_iff.mp (Nat.le_zero.mp enough)
      subst none
      rfl
  | succ fuel ih =>
      by_cases more : str = []
      · subst more
        rfl
      · obtain ⟨parts, shorter⟩ := extract_spec short
        rw [pieces_succ more, parts, ← ih (drop_extract_le more enough) shorter,
          ← List.filter_append]
        rfl

/-- The nonempty pieces of an absolute path are its components. -/
theorem allPieces_components {tail : List UInt8} (short : ShortNames (slash :: tail)) :
    (allPieces tail).filter (· ≠ []) = components (slash :: tail) := by
  have short' : ShortNames tail := by
    unfold ShortNames
    rw [← components_slash]
    exact short
  obtain ⟨parts, shorter⟩ := extract_spec short'
  have shortest : ShortNames (afterFirst tail) := by
    unfold ShortNames afterFirst
    rw [components_dropWhile]
    exact shorter
  rw [components_slash, parts, ← components_dropWhile (tail.drop _)]
  change _ = _ ++ components (afterFirst tail)
  rw [← pieces_components _ (afterFirst_length tail) shortest, ← List.filter_append]
  rfl

/-! ## Joined names -/

def joined (names : List (List UInt8)) : List UInt8 := [slash].intercalate names

/-- A step of a path. -/
structure StepName (name : List UInt8) : Prop where
  nonempty : name ≠ []
  plain : slash ∉ name

section Joined

variable {name : List UInt8} {names rest : List (List UInt8)}

theorem joined_single (name : List UInt8) : joined [name] = name := List.append_nil name

theorem joined_cons (name : List UInt8) (more : rest ≠ []) : joined (name :: rest) = name ++ slash :: joined rest := by
  cases rest with
  | nil => exact absurd rfl more
  | cons next rest => rfl

theorem joined_first (more : names ≠ []) (steps : ∀ name ∈ names, StepName name) :
    ∃ char rest, joined names = char :: rest ∧ char ≠ slash := by
  cases names with
  | nil => exact absurd rfl more
  | cons name names =>
      obtain ⟨nonempty, plain⟩ := steps name List.mem_cons_self
      cases name with
      | nil => exact absurd rfl nonempty
      | cons char name =>
          have other : char ≠ slash := fun same => plain (same ▸ List.mem_cons_self)
          by_cases last : names = []
          · rw [last, joined_single]
            exact ⟨char, name, rfl, other⟩
          · rw [joined_cons _ last]
            exact ⟨char, _, rfl, other⟩

/-- The pieces begin with the names that are short enough. -/
theorem pieces_joined (short : ∀ name ∈ names, StepName name ∧ name.length ≤ nameMax) (more : rest ≠ []) {fuel : Nat}
    (enough : (joined (names ++ rest)).length ≤ fuel) :
    ∃ fuel', (joined rest).length ≤ fuel' ∧ pieces fuel (joined (names ++ rest)) = names ++ pieces fuel' (joined rest) := by
  induction names generalizing fuel with
  | nil => exact ⟨fuel, enough, rfl⟩
  | cons name names ih =>
      obtain ⟨⟨nonempty, plain⟩, fits⟩ := short name List.mem_cons_self
      have more' : names ++ rest ≠ [] := List.append_ne_nil_of_right_ne_nil names more
      have whole : joined (name :: names ++ rest) = name ++ slash :: joined (names ++ rest) := joined_cons name more'
      rw [whole, List.length_append, List.length_cons] at enough
      obtain ⟨fuel, rfl⟩ : ∃ less, fuel = less + 1 := ⟨fuel - 1, by omega⟩
      have less : (joined (names ++ rest)).length ≤ fuel := by omega
      obtain ⟨fuel', enough', later⟩ := ih (fun other member => short other (List.mem_cons_of_mem _ member)) less
      refine ⟨fuel', enough', ?_⟩
      rw [whole, pieces_succ (List.append_ne_nil_of_left_ne_nil nonempty _), extract_slash plain fits, drop_name,
        later]
      rfl

theorem allPieces_eq {tail : List UInt8} (some : tail ≠ [])
    (behind : ∀ rest, tail.drop (extractComponent tail).1 ≠ slash :: rest) :
    allPieces tail = pieces (tail.length + 2) tail := by
  have same : afterFirst tail = tail.drop (extractComponent tail).1 := by
    unfold afterFirst
    cases left : tail.drop (extractComponent tail).1 with
    | nil => rfl
    | cons char rest =>
        have other : char ≠ slash := fun sep => behind rest (by rw [left, sep])
        exact List.dropWhile_cons_of_neg (by rw [beq_eq_false_iff_ne.mpr other]; exact Bool.false_ne_true)
  unfold allPieces
  rw [same, pieces_succ some]

/-- What is extracted from a path of names, the last ones of any length. -/
theorem allPieces_joined (short : ∀ name ∈ names, StepName name ∧ name.length ≤ nameMax) (more : rest ≠ [])
    (steps : ∀ name ∈ rest, StepName name) (first : names ≠ [] ∨ rest.length = 1) :
    ∃ fuel, (joined rest).length ≤ fuel ∧ allPieces (joined (names ++ rest)) = names ++ pieces fuel (joined rest) := by
  have steps' : ∀ name ∈ names ++ rest, StepName name := by
    intro name member
    rcases List.mem_append.1 member with front | back
    · exact (short name front).1
    · exact steps name back
  obtain ⟨char, tail, split, -⟩ := joined_first (List.append_ne_nil_of_right_ne_nil names more) steps'
  have some : joined (names ++ rest) ≠ [] := by
    rw [split]
    exact List.cons_ne_nil char tail
  have behind : ∀ left, (joined (names ++ rest)).drop (extractComponent (joined (names ++ rest))).1 ≠ slash :: left := by
    intro left
    cases names with
    | nil =>
        obtain ⟨last, rfl⟩ := List.length_eq_one_iff.1 (first.resolve_left fun other => other rfl)
        intro same
        have member : slash ∈ joined [last] := List.mem_of_mem_drop (same ▸ List.mem_cons_self)
        rw [joined_single] at member
        exact (steps last List.mem_cons_self).plain member
    | cons name names =>
        obtain ⟨⟨nonempty, plain⟩, fits⟩ := short name List.mem_cons_self
        have more' : names ++ rest ≠ [] := List.append_ne_nil_of_right_ne_nil names more
        obtain ⟨char, tail, split', other⟩ :=
          joined_first more' fun step member => steps' step (List.mem_cons_of_mem _ member)
        rw [List.cons_append, joined_cons name more', extract_slash plain fits, drop_name, split']
        exact fun same => other (List.cons.inj same).1
  rw [allPieces_eq some behind]
  exact pieces_joined short more (Nat.le_add_right _ 2)

/-- A last step of any length: its first characters, and more if it is too long. -/
theorem pieces_step (step : StepName name) {fuel : Nat} (enough : name.length ≤ fuel) :
    ∃ others, pieces fuel name = name.take nameMax :: others ∧ (name.length ≤ nameMax → others = []) := by
  have positive := List.length_pos_iff.2 step.nonempty
  obtain ⟨fuel, rfl⟩ : ∃ less, fuel = less + 1 := ⟨fuel - 1, by omega⟩
  have taken : (name.take nameMax).takeWhile (· != slash) = name.take nameMax := by
    have plain : slash ∉ name.take nameMax := fun member => step.plain (List.mem_of_mem_take member)
    have whole := takeWhile_name plain []
    rwa [List.append_nil, List.takeWhile_nil, List.append_nil] at whole
  have component : (extractComponent name).2 = name.take nameMax := by
    unfold extractComponent
    rw [taken]
    dsimp only
    split
    · rfl
    · rfl
  rw [pieces_succ step.nonempty, component]
  refine ⟨_, rfl, fun short => ?_⟩
  rw [extract_name step.plain short, List.drop_length, pieces_nil]

end Joined

end TrollOS.Vfs
