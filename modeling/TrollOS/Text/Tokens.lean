import Mathlib.Data.List.Induction
import TrollOS.Lib.Runs

/-!
# `strtok_r`

A pointer into the buffer is its address together with the string that is left there.  The bytes
before it are never looked at again.
-/

namespace TrollOS.Text

open TrollOS.Lib

structure Cursor where
  pointer : Nat
  str : List UInt8
  notNull : 0 < pointer

/-- `strchr`, NULL being 0. -/
def strchr : Nat → List UInt8 → UInt8 → Nat
  | _, [], _ => 0
  | p, char :: rest, chr => if char = chr then p else strchr (p + 1) rest chr

/-- `for (i = 0; delim[i] && *search; i++) if (*search == delim[i]) search++;` -/
def skipOnce : List UInt8 → Cursor → Cursor
  | [], search => search
  | d :: delim, search =>
      match search.str with
      | [] => search
      | char :: rest =>
          if char = d then skipOnce delim ⟨search.pointer + 1, rest, Nat.succ_pos _⟩
          else skipOnce delim search

/-- The loop around it, as long as `search` moves; `none` when that goes on for `fuel` rounds. -/
def skip (delim : List UInt8) : Nat → Cursor → Option Cursor
  | 0, _ => none
  | fuel + 1, search =>
      let next := skipOnce delim search
      if next.pointer = search.pointer then some next else skip delim fuel next

/-- One round of the search for the end: `if (!ret || ret > new) ret = new;` -/
def nearer (search : Cursor) (ret : Nat) (d : UInt8) : Nat :=
  let new := strchr search.pointer search.str d
  if ret = 0 ∨ ret > new then new else ret

/-- `ret` behind the loop over the delimiters. -/
def tokenEnd (delim : List UInt8) (search : Cursor) : Nat := delim.foldl (nearer search) 0

/-- `strtok_r`: the string returned and `*next`, or NULL. -/
def strtokR (delim : List UInt8) : Option Cursor → Option (Option (List UInt8 × Option Cursor))
  | none => some none
  | some start =>
      (skip delim (start.str.length + 1) start).map fun search =>
        let ret := tokenEnd delim search
        if ret ≠ 0 then
          let length := ret - search.pointer
          some (search.str.take length, some ⟨ret + 1, search.str.drop (length + 1), Nat.succ_pos ret⟩)
        else some (search.str, none)

/-- `strtok_r` with NULL until it returns NULL: the strings returned by at most `fuel` calls. -/
def tokens (delim : List UInt8) : Nat → Option Cursor → Option (List (List UInt8))
  | 0, _ => none
  | fuel + 1, next =>
      match strtokR delim next with
      | none => none
      | some none => some []
      | some (some (token, next)) => (tokens delim fuel next).map (token :: ·)

def isDelim (delim : List UInt8) (char : UInt8) : Bool := decide (char ∈ delim)

theorem isDelim_iff {delim : List UInt8} {char : UInt8} : isDelim delim char = true ↔ char ∈ delim :=
  decide_eq_true_iff

theorem not_isDelim_iff {delim : List UInt8} {char : UInt8} : isDelim delim char = false ↔ char ∉ delim :=
  decide_eq_false_iff_not

/-! ## Skipping -/

section Skipping

variable {delim : List UInt8} {search next : Cursor}

/-- `next` is `search` behind some of the delimiters there. -/
def Skipped (delim : List UInt8) (search next : Cursor) : Prop :=
  ∃ seps, search.str = seps ++ next.str ∧ (∀ char ∈ seps, char ∈ delim) ∧
    next.pointer = search.pointer + seps.length

theorem Skipped.refl (delim : List UInt8) (search : Cursor) : Skipped delim search search :=
  ⟨[], rfl, fun _ member => absurd member List.not_mem_nil, rfl⟩

theorem Skipped.trans {last : Cursor} (first : Skipped delim search next) (second : Skipped delim next last) :
    Skipped delim search last := by
  obtain ⟨seps, split, all, moved⟩ := first
  obtain ⟨seps', split', all', moved'⟩ := second
  refine ⟨seps ++ seps', ?_, ?_, ?_⟩
  · rw [split, split', List.append_assoc]
  · intro char member
    rcases List.mem_append.1 member with here | there
    · exact all _ here
    · exact all' _ there
  · rw [moved', moved, List.length_append, Nat.add_assoc]

/-- One pass, for delimiters among those of the call. -/
theorem skipOnce_spec {some' : List UInt8} (among : ∀ d ∈ some', d ∈ delim) (search : Cursor) :
    Skipped delim search (skipOnce some' search) ∧
      ((skipOnce some' search).pointer = search.pointer →
        (skipOnce some' search) = search ∧ ∀ char rest, search.str = char :: rest → char ∉ some') := by
  induction some' generalizing search with
  | nil => exact ⟨.refl delim search, fun _ => ⟨rfl, fun _ _ _ => List.not_mem_nil⟩⟩
  | cons d later ih =>
      have among' : ∀ e ∈ later, e ∈ delim := fun e member => among e (List.mem_cons_of_mem d member)
      obtain ⟨p, str, notNull⟩ := search
      cases str with
      | nil => exact ⟨.refl delim _, fun _ => ⟨rfl, fun _ _ same => nomatch same⟩⟩
      | cons char rest =>
          by_cases here : char = d
          · have moved : skipOnce (d :: later) ⟨p, char :: rest, notNull⟩ =
                skipOnce later ⟨p + 1, rest, Nat.succ_pos p⟩ := if_pos here
            obtain ⟨skipped, -⟩ := ih among' ⟨p + 1, rest, Nat.succ_pos p⟩
            have first : Skipped delim ⟨p, char :: rest, notNull⟩ ⟨p + 1, rest, Nat.succ_pos p⟩ :=
              ⟨[char], rfl, fun other member => by
                rw [List.mem_singleton.1 member, here]
                exact among d List.mem_cons_self, rfl⟩
            rw [moved]
            refine ⟨first.trans skipped, fun still => ?_⟩
            obtain ⟨seps, -, -, far⟩ := skipped
            dsimp only at far still
            omega
          · have stays : skipOnce (d :: later) ⟨p, char :: rest, notNull⟩ =
                skipOnce later ⟨p, char :: rest, notNull⟩ := if_neg here
            obtain ⟨skipped, still⟩ := ih among' ⟨p, char :: rest, notNull⟩
            rw [stays]
            refine ⟨skipped, fun same => ⟨(still same).1, ?_⟩⟩
            intro other tail split
            have head : other = char := (List.cons.inj split).1.symm
            rw [head, List.mem_cons, not_or]
            exact ⟨here, (still same).2 char rest rfl⟩

/-- Behind the skipping there is no delimiter. -/
theorem skip_spec (fuel : Nat) (search : Cursor) (enough : search.str.length < fuel) :
    ∃ next, skip delim fuel search = some next ∧ Skipped delim search next ∧
      ∀ char rest, next.str = char :: rest → char ∉ delim := by
  induction fuel generalizing search with
  | zero => exact absurd enough (Nat.not_lt_zero _)
  | succ fuel ih =>
      obtain ⟨skipped, still⟩ := @skipOnce_spec delim delim (fun _ member => member) search
      unfold skip
      dsimp only
      by_cases same : (skipOnce delim search).pointer = search.pointer
      · rw [if_pos same]
        refine ⟨_, rfl, skipped, ?_⟩
        rw [(still same).1]
        exact (still same).2
      · rw [if_neg same]
        have shorter : (skipOnce delim search).str.length < search.str.length := by
          obtain ⟨seps, split, -, moved⟩ := skipped
          rw [split, List.length_append]
          omega
        obtain ⟨next, ran, skipped', plain⟩ := ih (skipOnce delim search) (by omega)
        exact ⟨next, ran, skipped.trans skipped', plain⟩

end Skipping

/-! ## The end of a token -/

section Ends

theorem strchr_absent {p : Nat} {str : List UInt8} {d : UInt8} (absent : d ∉ str) : strchr p str d = 0 := by
  induction str generalizing p with
  | nil => rfl
  | cons char rest ih =>
      rw [List.mem_cons, not_or] at absent
      exact (if_neg (Ne.symm absent.1)).trans (ih absent.2)

/-- The loop over the delimiters with their places. -/
def nearest (place : UInt8 → Nat) (delim : List UInt8) : Nat :=
  delim.foldl (fun ret e => if ret = 0 ∨ ret > place e then place e else ret) 0

theorem nearest_snoc (place : UInt8 → Nat) (delim : List UInt8) (e : UInt8) :
    nearest place (delim ++ [e]) =
      if nearest place delim = 0 ∨ nearest place delim > place e then place e else nearest place delim := by
  unfold nearest
  rw [List.foldl_append]
  rfl

theorem tokenEnd_eq (delim : List UInt8) (search : Cursor) :
    tokenEnd delim search = nearest (strchr search.pointer search.str) delim := rfl

variable {place : UInt8 → Nat} {delim : List UInt8} {d : UInt8} {least : Nat}

/-- Nothing is nearer than the least place. -/
theorem nearest_ge (beyond : ∀ e ∈ delim, place e = 0 ∨ least ≤ place e) :
    nearest place delim = 0 ∨ least ≤ nearest place delim := by
  induction delim using List.reverseRecOn with
  | nil => exact Or.inl rfl
  | append_singleton delim e ih =>
      have earlier := ih fun f member => beyond f (List.mem_append_left _ member)
      have last := beyond e (List.mem_append_right _ (List.mem_singleton_self e))
      rw [nearest_snoc]
      split <;> assumption

theorem nearest_zero (absent : ∀ e ∈ delim, place e = 0) : nearest place delim = 0 := by
  induction delim using List.reverseRecOn with
  | nil => rfl
  | append_singleton delim e ih =>
      rw [nearest_snoc, ih fun f member => absent f (List.mem_append_left _ member), if_pos (Or.inl rfl)]
      exact absent e (List.mem_append_right _ (List.mem_singleton_self e))

/-- `d` is among the delimiters, and no later one is missing. -/
def NoneMissing (place : UInt8 → Nat) (delim : List UInt8) (d : UInt8) : Prop :=
  ∃ pre post, delim = pre ++ d :: post ∧ ∀ e ∈ post, place e ≠ 0

theorem noneMissing_last (place : UInt8 → Nat) (delim : List UInt8) (d : UInt8) :
    NoneMissing place (delim ++ [d]) d :=
  ⟨delim, [], rfl, fun _ member => absurd member List.not_mem_nil⟩

theorem noneMissing_snoc {e : UInt8} (other : e ≠ d) :
    NoneMissing place (delim ++ [e]) d ↔ NoneMissing place delim d ∧ place e ≠ 0 := by
  constructor
  · rintro ⟨pre, post, split, found⟩
    rcases List.eq_nil_or_concat post with none' | ⟨post, f, rfl⟩
    · subst none'
      exact absurd (List.append_inj_right' split rfl) fun same => other (List.cons.inj same).1
    · have split' : delim ++ [e] = (pre ++ d :: post) ++ [f] := by
        rw [split, List.append_assoc, List.cons_append, List.concat_eq_append]
      have last : e = f := (List.cons.inj (List.append_inj_right' split' rfl)).1
      refine ⟨⟨pre, post, List.append_inj_left' split' rfl, fun g member => found g ?_⟩, ?_⟩
      · rw [List.concat_eq_append]
        exact List.mem_append_left _ member
      · rw [last]
        exact found f (by rw [List.concat_eq_append]; exact List.mem_append_right _ (List.mem_singleton_self f))
  · rintro ⟨⟨pre, post, split, found⟩, here⟩
    refine ⟨pre, post ++ [e], by rw [split, List.append_assoc]; rfl, fun g member => ?_⟩
    rcases List.mem_append.1 member with before | last
    · exact found g before
    · rw [List.mem_singleton.1 last]
      exact here

/-- The loop leaves the least place exactly when no delimiter behind the one found there is missing:
a missing one is NULL, and NULL is nearer than any place. -/
theorem nearest_iff (pos : 0 < least) (here : place d = least) (only : ∀ e ∈ delim, place e = least → e = d)
    (beyond : ∀ e ∈ delim, place e = 0 ∨ least ≤ place e) :
    nearest place delim = least ↔ NoneMissing place delim d := by
  induction delim using List.reverseRecOn with
  | nil =>
      constructor
      · intro same
        exact absurd same (Nat.ne_of_lt pos)
      · rintro ⟨pre, post, split, -⟩
        exact absurd split.symm (List.append_ne_nil_of_right_ne_nil _ (List.cons_ne_nil _ _))
  | append_singleton delim e ih =>
      have beyond' : ∀ f ∈ delim, place f = 0 ∨ least ≤ place f := fun f member =>
        beyond f (List.mem_append_left _ member)
      have earlier := nearest_ge beyond'
      have last := beyond e (List.mem_append_right _ (List.mem_singleton_self e))
      have ih := ih (fun f member => only f (List.mem_append_left _ member)) beyond'
      rw [nearest_snoc]
      by_cases same : e = d
      · rw [same, here]
        refine ⟨fun _ => noneMissing_last place delim d, fun _ => ?_⟩
        split <;> omega
      · have differ : place e ≠ least := fun at' =>
          same (only e (List.mem_append_right _ (List.mem_singleton_self e)) at')
        rw [noneMissing_snoc same, ← ih]
        split <;> omega

theorem strchr_append {p : Nat} {before : List UInt8} {e : UInt8} (absent : e ∉ before) (s : List UInt8) :
    strchr p (before ++ s) e = strchr (p + before.length) s e := by
  induction before generalizing p with
  | nil => rfl
  | cons char before ih =>
      rw [List.mem_cons, not_or] at absent
      have later := @ih (p + 1) absent.2
      rw [Nat.add_right_comm] at later
      exact (if_neg (Ne.symm absent.1)).trans later

theorem strchr_ge (p : Nat) (s : List UInt8) (e : UInt8) : strchr p s e = 0 ∨ p ≤ strchr p s e := by
  induction s generalizing p with
  | nil => exact Or.inl rfl
  | cons char s ih =>
      by_cases here : char = e
      · exact Or.inr (Nat.le_of_eq (if_pos here).symm)
      · have later : strchr p (char :: s) e = strchr (p + 1) s e := if_neg here
        have rest := ih (p + 1)
        omega

theorem strchr_ne_zero {p : Nat} (pos : 0 < p) {s : List UInt8} {e : UInt8} : strchr p s e ≠ 0 ↔ e ∈ s := by
  induction s generalizing p with
  | nil => exact ⟨fun found => absurd rfl found, fun member => absurd member List.not_mem_nil⟩
  | cons char s ih =>
      by_cases here : char = e
      · have first : strchr p (char :: s) e = p := if_pos here
        rw [first, ← here]
        exact ⟨fun _ => List.mem_cons_self, fun _ => Nat.ne_of_gt pos⟩
      · have later : strchr p (char :: s) e = strchr (p + 1) s e := if_neg here
        rw [later, ih (Nat.succ_pos p), List.mem_cons, or_iff_right (Ne.symm here)]

/-- Where a delimiter is found that is not in the token. -/
theorem strchr_first {p : Nat} {e : UInt8} (s : List UInt8) (found : strchr p (d :: s) e = p) (pos : 0 < p) :
    e = d := by
  by_contra other
  have later : strchr p (d :: s) e = strchr (p + 1) s e := if_neg (Ne.symm other)
  have far := strchr_ge (p + 1) s e
  omega

end Ends

/-! ## One call -/

section Call

variable {delim : List UInt8} {d : UInt8}

/-- Every delimiter in the list behind the last `d` occurs from that `d` on in the string. -/
def FoundBehind (delim : List UInt8) (d : UInt8) (rest : List UInt8) : Prop :=
  ∃ pre post, delim = pre ++ d :: post ∧ ∀ e ∈ post, e ∈ d :: rest

/-- The end of a token in front of the delimiter `d`. -/
theorem tokenEnd_iff {search : Cursor} {token rest : List UInt8} (split : search.str = token ++ d :: rest)
    (whole : ∀ c ∈ token, c ∉ delim) (sep : d ∈ delim) :
    (tokenEnd delim search = 0 ∨ search.pointer + token.length ≤ tokenEnd delim search) ∧
      (tokenEnd delim search = search.pointer + token.length ↔ FoundBehind delim d rest) := by
  have absent : ∀ e ∈ delim, e ∉ token := fun e member inside => whole e inside member
  have place : ∀ e ∈ delim, strchr search.pointer search.str e =
      strchr (search.pointer + token.length) (d :: rest) e := fun e member => by
    rw [split, strchr_append (absent e member)]
  have pos : 0 < search.pointer + token.length := Nat.add_pos_left search.notNull _
  have here : strchr search.pointer search.str d = search.pointer + token.length := by
    rw [place d sep]
    exact if_pos rfl
  have beyond : ∀ e ∈ delim, strchr search.pointer search.str e = 0 ∨
      search.pointer + token.length ≤ strchr search.pointer search.str e := fun e member => by
    rw [place e member]
    exact strchr_ge _ _ e
  have only : ∀ e ∈ delim, strchr search.pointer search.str e = search.pointer + token.length → e = d :=
    fun e member at' => strchr_first rest (by rw [← place e member]; exact at') pos
  rw [tokenEnd_eq]
  refine ⟨nearest_ge beyond, (nearest_iff pos here only beyond).trans ?_⟩
  constructor
  · rintro ⟨pre, post, parts, found⟩
    refine ⟨pre, post, parts, fun e member => (strchr_ne_zero pos).1 ?_⟩
    have among : e ∈ delim := parts ▸ List.mem_append_right pre (List.mem_cons_of_mem d member)
    rw [← place e among]
    exact found e member
  · rintro ⟨pre, post, parts, found⟩
    refine ⟨pre, post, parts, fun e member => ?_⟩
    have among : e ∈ delim := parts ▸ List.mem_append_right pre (List.mem_cons_of_mem d member)
    rw [place e among]
    exact (strchr_ne_zero pos).2 (found e member)

def returned (delim : List UInt8) (search : Cursor) : List UInt8 × Option Cursor :=
  if tokenEnd delim search ≠ 0 then
    (search.str.take (tokenEnd delim search - search.pointer),
      some ⟨tokenEnd delim search + 1, search.str.drop (tokenEnd delim search - search.pointer + 1),
        Nat.succ_pos _⟩)
  else (search.str, none)

theorem strtokR_skipped (delim : List UInt8) (start : Cursor) :
    ∃ search, strtokR delim (some start) = some (some (returned delim search)) ∧
      Skipped delim start search ∧ ∀ char rest, search.str = char :: rest → char ∉ delim := by
  obtain ⟨search, ran, skipped, plain⟩ := @skip_spec delim (start.str.length + 1) start (Nat.lt_succ_self _)
  refine ⟨search, ?_, skipped, plain⟩
  unfold strtokR returned
  dsimp only
  rw [ran, Option.map_some]
  split <;> rfl

/-- Without a delimiter the rest of the string is the token. -/
theorem returned_last {search : Cursor} (whole : ∀ c ∈ search.str, c ∉ delim) :
    returned delim search = (search.str, none) := by
  have none' : tokenEnd delim search = 0 := by
    rw [tokenEnd_eq]
    exact nearest_zero fun e member => strchr_absent fun inside => whole e inside member
  unfold returned
  exact if_neg (not_not.2 none')

/-- With one the token ends there, or it runs on beyond it. -/
theorem returned_token {search : Cursor} {token rest : List UInt8} (split : search.str = token ++ d :: rest)
    (whole : ∀ c ∈ token, c ∉ delim) (sep : d ∈ delim) :
    (FoundBehind delim d rest → ∃ next, returned delim search = (token, some next) ∧ next.str = rest) ∧
      (¬ FoundBehind delim d rest → d ∈ (returned delim search).1) := by
  obtain ⟨beyond, ends⟩ := tokenEnd_iff split whole sep
  have inside : d ∈ search.str := by
    rw [split]
    exact List.mem_append_right _ List.mem_cons_self
  constructor
  · intro found
    have ret := ends.2 found
    have pos := search.notNull
    unfold returned
    rw [if_pos (by omega)]
    refine ⟨_, Prod.ext ?_ rfl, ?_⟩
    · change search.str.take (tokenEnd delim search - search.pointer) = token
      rw [ret, Nat.add_sub_cancel_left, split, List.take_left]
    · change search.str.drop (tokenEnd delim search - search.pointer + 1) = rest
      rw [ret, Nat.add_sub_cancel_left, split, ← List.drop_drop, List.drop_left]
      rfl
  · intro missing
    have far : tokenEnd delim search ≠ search.pointer + token.length := fun ret => missing (ends.1 ret)
    unfold returned
    by_cases null : tokenEnd delim search = 0
    · rw [if_neg (not_not.2 null)]
      exact inside
    · rw [if_pos null]
      obtain ⟨more, longer⟩ : ∃ more, tokenEnd delim search - search.pointer = token.length + (more + 1) :=
        ⟨tokenEnd delim search - search.pointer - token.length - 1, by omega⟩
      change d ∈ search.str.take (tokenEnd delim search - search.pointer)
      rw [longer, split, List.take_length_add_append, List.take_succ_cons]
      exact List.mem_append_right _ List.mem_cons_self

end Call

/-! ## All calls -/

/-- A string that `strtok_r` takes apart rightly: it ends with a token, and behind each of the other
tokens every delimiter in the list after the one found there still occurs. -/
structure Separable (delim str : List UInt8) : Prop where
  ends : ∃ front last, str = front ++ [last] ∧ last ∉ delim
  inside : ∀ before c d rest, str = before ++ c :: d :: rest → c ∉ delim → d ∈ delim →
    FoundBehind delim d rest

namespace Separable

variable {delim : List UInt8}

theorem not_nil : ¬ Separable delim [] := fun separable => by
  obtain ⟨front, last, split, -⟩ := separable.ends
  exact absurd split.symm (List.append_ne_nil_of_right_ne_nil _ (List.cons_ne_nil _ _))

/-- A delimiter at the front makes no difference. -/
theorem sep {x : UInt8} (isSep : x ∈ delim) (s : List UInt8) : Separable delim (x :: s) ↔ Separable delim s := by
  constructor
  · rintro ⟨⟨front, last, split, plain⟩, inside⟩
    refine ⟨?_, fun before c d rest parts => inside (x :: before) c d rest (congrArg (x :: ·) parts)⟩
    cases front with
    | nil => exact absurd ((List.cons.inj split).1 ▸ isSep) plain
    | cons y front => exact ⟨front, last, (List.cons.inj split).2, plain⟩
  · rintro ⟨⟨front, last, split, plain⟩, inside⟩
    refine ⟨⟨x :: front, last, congrArg (x :: ·) split, plain⟩, fun before c d rest parts notSep => ?_⟩
    cases before with
    | nil => exact absurd ((List.cons.inj parts).1 ▸ isSep) notSep
    | cons y before => exact inside before c d rest (List.cons.inj parts).2 notSep

theorem skip {seps : List UInt8} (all : ∀ x ∈ seps, x ∈ delim) (s : List UInt8) :
    Separable delim (seps ++ s) ↔ Separable delim s := by
  induction seps with
  | nil => exact Iff.rfl
  | cons x seps ih =>
      rw [List.cons_append, sep (all x List.mem_cons_self)]
      exact ih fun y member => all y (List.mem_cons_of_mem x member)

theorem single {token : List UInt8} (whole : ∀ c ∈ token, c ∉ delim) (some' : token ≠ []) :
    Separable delim token := by
  constructor
  · refine ⟨token.dropLast, token.getLast some', (List.dropLast_concat_getLast some').symm, ?_⟩
    exact whole _ (List.getLast_mem some')
  · intro before c d rest parts _ isSep
    refine absurd isSep (whole d ?_)
    rw [parts]
    exact List.mem_append_right _ (List.mem_cons_of_mem c List.mem_cons_self)

/-- Behind its first token a string is separable when the rest is. -/
theorem token {token : List UInt8} (whole : ∀ c ∈ token, c ∉ delim) (some' : token ≠ []) {d : UInt8}
    (isSep : d ∈ delim) (rest : List UInt8) :
    Separable delim (token ++ d :: rest) ↔ FoundBehind delim d rest ∧ Separable delim rest := by
  constructor
  · rintro ⟨⟨front, last, split, plain⟩, inside⟩
    refine ⟨?_, ?_, fun before c e rest' parts => ?_⟩
    · have lastChar := List.dropLast_concat_getLast some'
      have parts : token ++ d :: rest = token.dropLast ++ token.getLast some' :: d :: rest := by
        calc
          token ++ d :: rest = (token.dropLast ++ [token.getLast some']) ++ d :: rest := by rw [lastChar]
          _ = token.dropLast ++ token.getLast some' :: d :: rest := List.append_assoc ..
      exact inside token.dropLast (token.getLast some') d rest parts (whole _ (List.getLast_mem some')) isSep
    · rcases List.eq_nil_or_concat rest with none' | ⟨rest, e, rfl⟩
      · subst none'
        have same : d = last := (List.cons.inj (List.append_inj_right' split rfl)).1
        exact absurd isSep (same ▸ plain)
      · rw [List.concat_eq_append, ← List.cons_append, ← List.append_assoc] at split
        have same : e = last := (List.cons.inj (List.append_inj_right' split rfl)).1
        exact ⟨rest, e, List.concat_eq_append, same ▸ plain⟩
    · refine inside (token ++ d :: before) c e rest' ?_
      rw [parts, List.append_assoc]
      rfl
  · rintro ⟨found, ⟨front, last, split, plain⟩, inside⟩
    constructor
    · refine ⟨token ++ d :: front, last, ?_, plain⟩
      rw [split, List.append_assoc]
      rfl
    · intro before c e rest' parts notSep isSep'
      have parts' : token ++ d :: rest = (before ++ [c]) ++ e :: rest' := by
        rw [parts, List.append_assoc]
        rfl
      rcases List.append_eq_append_iff.1 parts' with ⟨more, front', back⟩ | ⟨more, front', back⟩
      · cases more with
        | nil =>
            obtain ⟨same, same'⟩ := List.cons.inj back
            rw [← same, ← same']
            exact found
        | cons x more =>
            obtain ⟨same, later⟩ := List.cons.inj back
            rcases List.eq_nil_or_concat more with none' | ⟨more, y, rfl⟩
            · subst none'
              have last' : c = x := (List.cons.inj (List.append_inj_right' front' rfl)).1
              exact absurd (last'.trans same.symm ▸ isSep) notSep
            · rw [List.concat_eq_append, ← List.cons_append, ← List.append_assoc] at front'
              have last' : c = y := (List.cons.inj (List.append_inj_right' front' rfl)).1
              refine inside more c e rest' ?_ notSep isSep'
              rw [later, last', List.concat_eq_append]
              exact List.append_assoc more [y] (e :: rest')
      · cases more with
        | nil =>
            obtain ⟨same, same'⟩ := List.cons.inj back
            rw [same, same']
            exact found
        | cons x more =>
            have same : e = x := (List.cons.inj back).1
            refine absurd isSep' (whole e ?_)
            rw [front', same]
            exact List.mem_append_right _ List.mem_cons_self

end Separable

section Calls

variable {delim : List UInt8} {start : Cursor}

theorem tokens_null (fuel : Nat) : tokens delim (fuel + 1) none = some [] := rfl

/-- One call, and the calls behind it. -/
theorem tokens_step {search : Cursor} (call : strtokR delim (some start) = some (some (returned delim search)))
    (fuel : Nat) : tokens delim (fuel + 1) (some start) =
      (tokens delim fuel (returned delim search).2).map ((returned delim search).1 :: ·) := by
  conv_lhs => unfold tokens
  rw [call]

theorem skipped_runs {search : Cursor} (skipped : Skipped delim start search) :
    runs (isDelim delim) start.str = runs (isDelim delim) search.str ∧
      (Separable delim start.str ↔ Separable delim search.str) := by
  obtain ⟨seps, split, all, -⟩ := skipped
  rw [split]
  exact ⟨runs_skip (fun x member => isDelim_iff.2 (all x member)) _, Separable.skip all _⟩

/-- Where the tokens are right, the string is separable. -/
theorem tokens_separable (fuel : Nat) (ran : tokens delim fuel (some start) = some (runs (isDelim delim) start.str)) :
    Separable delim start.str := by
  induction fuel generalizing start with
  | zero => exact absurd ran (Option.some_ne_none _).symm
  | succ fuel ih =>
      obtain ⟨search, call, skipped, plain⟩ := strtokR_skipped delim start
      obtain ⟨same, iff⟩ := skipped_runs skipped
      rw [tokens_step call] at ran
      obtain ⟨later, there, whole⟩ := Option.map_eq_some_iff.1 ran
      rw [same] at whole
      rw [iff]
      have first : (returned delim search).1 ∈ runs (isDelim delim) search.str :=
        whole ▸ List.mem_cons_self
      rcases stretch_cases (isDelim delim) search.str with last | ⟨token, d, rest, split, noSep, isSep⟩
      · have last' : ∀ c ∈ search.str, c ∉ delim := fun c member => not_isDelim_iff.1 (last c member)
        refine Separable.single last' fun empty => ?_
        rw [empty] at first
        exact absurd first List.not_mem_nil
      · have noSep' : ∀ c ∈ token, c ∉ delim := fun c member => not_isDelim_iff.1 (noSep c member)
        have some' : token ≠ [] := by
          rintro rfl
          exact plain d rest split (isDelim_iff.1 isSep)
        obtain ⟨right, wrong⟩ := returned_token split noSep' (isDelim_iff.1 isSep)
        rw [split, runs_append noSep some' isSep] at whole
        by_cases found : FoundBehind delim d rest
        · obtain ⟨next, got, left⟩ := right found
          rw [got] at there whole
          rw [split, Separable.token noSep' some' (isDelim_iff.1 isSep)]
          refine ⟨found, ?_⟩
          rw [← left]
          refine ih ?_
          rw [left]
          exact there.trans (congrArg some (List.cons.inj whole).2)
        · have inside := wrong found
          rw [(List.cons.inj whole).1] at inside
          exact absurd (isDelim_iff.1 isSep) (noSep' d inside)

/-- A separable string is taken apart rightly. -/
theorem separable_tokens (separable : Separable delim start.str) :
    ∃ fuel, tokens delim fuel (some start) = some (runs (isDelim delim) start.str) := by
  obtain ⟨length, short⟩ : ∃ length, start.str.length < length := ⟨_, Nat.lt_succ_self _⟩
  induction length generalizing start with
  | zero => exact absurd short (Nat.not_lt_zero _)
  | succ length ih =>
      obtain ⟨search, call, skipped, plain⟩ := strtokR_skipped delim start
      obtain ⟨same, iff⟩ := skipped_runs skipped
      obtain ⟨seps, parts, -, -⟩ := skipped
      rw [iff] at separable
      rcases stretch_cases (isDelim delim) search.str with last | ⟨token, d, rest, split, noSep, isSep⟩
      · have last' : ∀ c ∈ search.str, c ∉ delim := fun c member => not_isDelim_iff.1 (last c member)
        have some' : search.str ≠ [] := fun empty => Separable.not_nil (empty ▸ separable)
        refine ⟨2, ?_⟩
        rw [tokens_step call, returned_last last', tokens_null, same, runs_single last some']
        rfl
      · have noSep' : ∀ c ∈ token, c ∉ delim := fun c member => not_isDelim_iff.1 (noSep c member)
        have some' : token ≠ [] := by
          rintro rfl
          exact plain d rest split (isDelim_iff.1 isSep)
        obtain ⟨right, -⟩ := returned_token split noSep' (isDelim_iff.1 isSep)
        rw [split, Separable.token noSep' some' (isDelim_iff.1 isSep)] at separable
        obtain ⟨next, got, left⟩ := right separable.1
        have shorter : next.str.length < length := by
          rw [parts, split, List.length_append, List.length_append, List.length_cons] at short
          rw [left]
          omega
        obtain ⟨fuel, ran⟩ := @ih next (left.symm ▸ separable.2) shorter
        refine ⟨fuel + 1, ?_⟩
        rw [tokens_step call, got, ran, left, same, split, runs_append noSep some' isSep]
        rfl

/-- The calls come to an end on every string. -/
theorem tokens_end (delim : List UInt8) (start : Cursor) :
    ∃ fuel found, tokens delim fuel (some start) = some found := by
  obtain ⟨length, short⟩ : ∃ length, start.str.length < length := ⟨_, Nat.lt_succ_self _⟩
  induction length generalizing start with
  | zero => exact absurd short (Nat.not_lt_zero _)
  | succ length ih =>
      obtain ⟨search, call, ⟨seps, parts, -, -⟩, -⟩ := strtokR_skipped delim start
      by_cases null : tokenEnd delim search = 0
      · have last : returned delim search = (search.str, none) := if_neg (not_not.2 null)
        refine ⟨2, [search.str], ?_⟩
        rw [tokens_step call, last]
        rfl
      · have some' : 0 < search.str.length := by
          refine List.length_pos_iff.2 fun empty => null ?_
          rw [tokenEnd_eq, empty]
          exact nearest_zero fun _ _ => rfl
        obtain ⟨next, more, shorter⟩ : ∃ next, (returned delim search).2 = some next ∧
            next.str.length < length := by
          refine ⟨_, congrArg Prod.snd (if_pos null), ?_⟩
          rw [parts, List.length_append] at short
          dsimp only
          rw [List.length_drop]
          omega
        obtain ⟨fuel, found, ran⟩ := ih next shorter
        refine ⟨fuel + 1, (returned delim search).1 :: found, ?_⟩
        rw [tokens_step call, more, ran]
        rfl

end Calls

/-- `strtok_r` gives the maximal runs between the delimiters exactly when the string is separable. -/
theorem strtok_r_tokens_iff (delim : List UInt8) (start : Cursor) :
    (∃ fuel, tokens delim fuel (some start) = some (runs (isDelim delim) start.str)) ↔
      Separable delim start.str := by
  constructor
  · rintro ⟨fuel, ran⟩
    exact tokens_separable fuel ran
  · exact separable_tokens

/-- "a,b" with the delimiters "," and ";": the second one does not occur, and hides the first. -/
theorem missing_delimiter_hides :
    ¬ ∃ fuel, tokens [44, 59] fuel (some ⟨4096, [97, 44, 98], by decide⟩) =
      some (runs (isDelim [44, 59]) [97, 44, 98]) := by
  rintro ⟨fuel, ran⟩
  obtain ⟨pre, post, split, found⟩ := (tokens_separable fuel ran).inside [] 97 44 [98] rfl (by decide) (by decide)
  have last : (59 : UInt8) ∈ post := by
    cases pre with
    | nil => exact (List.cons.inj split).2 ▸ List.mem_singleton_self 59
    | cons x pre =>
        cases pre with
        | nil => exact absurd (List.cons.inj (List.cons.inj split).2).1 (by decide)
        | cons y pre => exact absurd (List.cons.inj (List.cons.inj split).2).2.symm (by simp)
  exact absurd (found 59 last) (by decide)

end TrollOS.Text
