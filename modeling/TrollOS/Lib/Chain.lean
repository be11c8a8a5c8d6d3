import Mathlib.Data.List.Nodup
import Mathlib.Data.List.Perm.Subperm
import Mathlib.Logic.Function.Basic

/-!
# Null-terminated chains

A chain is what a singly linked list looks like from outside: a head address,
a successor function and the list of nodes met before the null address.  The
nodes are determined by the head and the successors, so a finite chain never
repeats a node.  `relink` is the store through a pointer to a link, the head
link or the link field of the last node of a prefix.
-/

namespace TrollOS.Lib

def Chain (next : Nat → Nat) : Nat → List Nat → Prop
  | head, [] => head = 0
  | head, node :: rest => head = node ∧ node ≠ 0 ∧ Chain next (next node) rest

instance Chain.instDecidable (next : Nat → Nat) :
    ∀ (head : Nat) (nodes : List Nat), Decidable (Chain next head nodes)
  | head, [] => inferInstanceAs (Decidable (head = 0))
  | head, node :: rest =>
      have := Chain.instDecidable next (next node) rest
      inferInstanceAs (Decidable (head = node ∧ node ≠ 0 ∧ Chain next (next node) rest))

/-- The nodes met on the way from `head` to the address `stop`. -/
def Segment (next : Nat → Nat) : Nat → List Nat → Nat → Prop
  | head, [], stop => head = stop
  | head, node :: rest, stop => head = node ∧ node ≠ 0 ∧ Segment next (next node) rest stop

namespace Chain

variable {next next' : Nat → Nat} {head : Nat}

/-- The head link holds the first node, or null. -/
theorem head_eq {nodes : List Nat} (chain : Chain next head nodes) : head = nodes.headD 0 := by
  cases nodes with
  | nil => exact chain
  | cons node rest => exact chain.1

theorem ne_zero {nodes : List Nat} (chain : Chain next head nodes) {node : Nat}
    (mem : node ∈ nodes) : node ≠ 0 := by
  induction nodes generalizing head with
  | nil => cases mem
  | cons first rest ih =>
      rcases List.mem_cons.mp mem with same | later
      · rw [same]
        exact chain.2.1
      · exact ih chain.2.2 later

/-- Only the successors of the nodes themselves matter. -/
theorem congr {nodes : List Nat} (same : ∀ node ∈ nodes, next node = next' node)
    (chain : Chain next head nodes) : Chain next' head nodes := by
  induction nodes generalizing head with
  | nil => exact chain
  | cons node rest ih =>
      refine ⟨chain.1, chain.2.1, ?_⟩
      rw [← same node List.mem_cons_self]
      exact ih (fun other mem => same other (List.mem_cons_of_mem _ mem)) chain.2.2

theorem unique {left right : List Nat} (hl : Chain next head left) (hr : Chain next head right) :
    left = right := by
  induction left generalizing head right with
  | nil =>
      cases right with
      | nil => rfl
      | cons node rest => exact absurd (hr.1.symm.trans hl) hr.2.1
  | cons node rest ih =>
      cases right with
      | nil => exact absurd (hl.1.symm.trans hr) hl.2.1
      | cons other tail =>
          have same : node = other := hl.1.symm.trans hr.1
          subst same
          rw [ih hl.2.2 hr.2.2]

/-- Splitting a chain after a prefix gives a chain from the link after it. -/
theorem drop_prefix {front back : List Nat} {node : Nat}
    (chain : Chain next head (front ++ node :: back)) : Chain next node (node :: back) := by
  induction front generalizing head with
  | nil => exact ⟨rfl, chain.2.1, chain.2.2⟩
  | cons first rest ih => exact ih chain.2.2

theorem nodup {nodes : List Nat} (chain : Chain next head nodes) : nodes.Nodup := by
  induction nodes generalizing head with
  | nil => exact List.nodup_nil
  | cons node rest ih =>
      refine List.nodup_cons.mpr ⟨fun again => ?_, ih chain.2.2⟩
      obtain ⟨front, back, split⟩ := List.append_of_mem again
      have whole : Chain next node (node :: rest) := ⟨rfl, chain.2.1, chain.2.2⟩
      have inner : Chain next node (node :: back) := by
        have tail := chain.2.2
        rw [split] at tail
        exact tail.drop_prefix
      have lengths := congrArg List.length (whole.unique inner)
      rw [split] at lengths
      simp at lengths
      omega

/-- A chain of addresses below `n` has at most `n` nodes. -/
theorem length_le {nodes : List Nat} {n : Nat} (chain : Chain next head nodes)
    (small : ∀ node ∈ nodes, node < n) : nodes.length ≤ n := by
  have within : nodes ⊆ List.range n := fun node mem => List.mem_range.mpr (small node mem)
  have short := (chain.nodup.subperm within).length_le
  rwa [List.length_range] at short

/-- The value of the link reached after walking over `front`. -/
def linkAfter (next : Nat → Nat) (head : Nat) (front : List Nat) : Nat :=
  match front.getLast? with
  | none => head
  | some last => next last

theorem linkAfter_eq {front back : List Nat} (chain : Chain next head (front ++ back)) :
    linkAfter next head front = back.headD 0 := by
  induction front generalizing head with
  | nil => exact chain.head_eq
  | cons node rest ih =>
      have inner := ih chain.2.2
      cases rest with
      | nil => simpa [linkAfter] using inner
      | cons other tail =>
          have last := List.getLast?_eq_some_getLast (List.cons_ne_nil other tail)
          simp only [linkAfter, List.getLast?_cons_cons, last] at inner ⊢
          exact inner

/-- The part of a chain before `back` leads to the first node of `back`. -/
theorem segment {front back : List Nat} (chain : Chain next head (front ++ back)) :
    Segment next head front (back.headD 0) := by
  induction front generalizing head with
  | nil => exact chain.head_eq
  | cons node rest ih => exact ⟨chain.1, chain.2.1, ih chain.2.2⟩

end Chain

namespace Segment

variable {next next' : Nat → Nat} {head stop : Nat}

/-- Storing `target` through the link after `front` replaces what follows. -/
theorem relink {front back : List Nat} {target head' : Nat}
    (segment : Segment next head front stop) (distinct : front.Nodup)
    (tail : Chain next' target back)
    (keeps : ∀ node ∈ front, node ∉ front.getLast? → next' node = next node)
    (atHead : front = [] → head' = target) (atNode : front ≠ [] → head' = head)
    (stored : ∀ last ∈ front.getLast?, next' last = target) :
    Chain next' head' (front ++ back) := by
  induction front generalizing head head' with
  | nil =>
      rw [atHead rfl]
      exact tail
  | cons node rest ih =>
      have headEq := atNode (List.cons_ne_nil _ _)
      refine ⟨headEq.trans segment.1, segment.2.1, ?_⟩
      cases rest with
      | nil =>
          rw [stored node (by simp)]
          exact tail
      | cons other more =>
          have notLast : node ∉ (node :: other :: more).getLast? := by
            rw [List.getLast?_cons_cons]
            intro isLast
            exact (List.nodup_cons.mp distinct).1 (List.mem_of_getLast? isLast)
          have nodeKept : next' node = next node :=
            keeps node List.mem_cons_self notLast
          rw [nodeKept]
          apply @ih (next node) (next node) segment.2.2 (List.nodup_cons.mp distinct).2
          · intro later mem off
            exact keeps later (List.mem_cons_of_mem _ mem) (by rwa [List.getLast?_cons_cons])
          · exact fun empty => nomatch empty
          · exact fun _ => rfl
          · intro last mem
            exact stored last (by rwa [List.getLast?_cons_cons])

end Segment

end TrollOS.Lib
