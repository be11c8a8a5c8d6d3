import TrollOS.Mem.Layout

/-!
# Walking and editing one free list

A `Header **` that has walked over a prefix of a list points at the link after
it.  Reading through it shows the next block; storing through it replaces what
follows.  `FreeList` collects what the scans rely on, and `HeaderFrame` says
which headers an edit may have written.
-/

namespace TrollOS.Mem

open TrollOS.Lib

/-- Only bytes of the headers at `hs` may differ. -/
def HeaderFrame (hs : List Nat) (mem mem' : ByteMem) : Prop :=
  ∀ x, (∀ a ∈ hs, ¬ (a ≤ x ∧ x < a + 8)) → mem' x = mem x

namespace HeaderFrame

variable {hs hs' : List Nat} {mem mem' mem'' : ByteMem}

theorem refl (hs : List Nat) (mem : ByteMem) : HeaderFrame hs mem mem := fun _ _ => rfl

theorem trans (first : HeaderFrame hs mem mem') (second : HeaderFrame hs mem' mem'') :
    HeaderFrame hs mem mem'' := fun x off => (second x off).trans (first x off)

theorem mono (sub : ∀ a ∈ hs, a ∈ hs') (frame : HeaderFrame hs mem mem') :
    HeaderFrame hs' mem mem' := fun x off => frame x fun a mem => off a (sub a mem)

theorem setSize (mem : ByteMem) {a : Nat} (v : Nat) (inHs : a ∈ hs) :
    HeaderFrame hs mem (setSize mem a v) := fun x off => by
  have out := off a inHs
  exact mem.store32_off v (by omega)

theorem setNext (mem : ByteMem) {a : Nat} (v : Nat) (inHs : a ∈ hs) :
    HeaderFrame hs mem (setNext mem a v) := fun x off => by
  have out := off a inHs
  exact mem.store32_off v (by omega)

theorem sizeOf_eq (frame : HeaderFrame hs mem mem') {b : Nat}
    (apart : ∀ a ∈ hs, HeadersApart a b) : sizeOf mem' b = sizeOf mem b :=
  ByteMem.load32_congr fun x low high => frame x fun a inHs inside => by
    have := apart a inHs
    unfold HeadersApart at this
    omega

theorem nextOf_eq (frame : HeaderFrame hs mem mem') {b : Nat}
    (apart : ∀ a ∈ hs, HeadersApart a b) : nextOf mem' b = nextOf mem b :=
  ByteMem.load32_congr fun x low high => frame x fun a inHs inside => by
    have := apart a inHs
    unfold HeadersApart at this
    omega

end HeaderFrame

theorem Block.Apart.headers {b c : Block} (apart : b.Apart c) : HeadersApart b.hdr c.hdr := by
  unfold Block.Apart Block.stop sizeofHeader at apart
  unfold HeadersApart
  omega

theorem HeadersApart.symm {a b : Nat} (apart : HeadersApart a b) : HeadersApart b a := Or.symm apart

def linkAfter (l : Fin 5) (front : List Block) : Link :=
  match front.getLast? with
  | none => .root l
  | some last => .next last.hdr

@[simp]
theorem linkAfter_nil (l : Fin 5) : linkAfter l [] = .root l := rfl

@[simp]
theorem linkAfter_snoc (l : Fin 5) (front : List Block) (b : Block) :
    linkAfter l (front ++ [b]) = .next b.hdr := by
  simp [linkAfter]

/-- What a scan of list `l` relies on: its chain, the sizes in its headers, and
that its blocks do not overlap. -/
structure FreeList {M : Type} (h : Heap ByteMem M) (l : Fin 5) (bs : List Block) : Prop where
  chain : Chain (nextOf h.mem) (h.freelist l) (bs.map Block.hdr)
  sizes : ∀ b ∈ bs, sizeOf h.mem b.hdr = b.size
  small : ∀ b ∈ bs, b.stop < 4294967296
  apart : bs.Pairwise Block.Apart

namespace FreeList

variable {M : Type} {h : Heap ByteMem M} {l : Fin 5} {front back : List Block} {b : Block}

theorem deref_eq (list : FreeList h l (front ++ back)) :
    h.deref (linkAfter l front) = (back.map Block.hdr).headD 0 := by
  have chain := list.chain
  rw [List.map_append] at chain
  have value := chain.linkAfter_eq
  rw [← value]
  unfold Chain.linkAfter linkAfter
  rw [List.getLast?_map]
  cases front.getLast? with
  | none => rfl
  | some last => rfl

theorem deref_cons (list : FreeList h l (front ++ b :: back)) :
    h.deref (linkAfter l front) = b.hdr := list.deref_eq

theorem deref_end (list : FreeList h l front) : h.deref (linkAfter l front) = 0 :=
  @deref_eq M h l front [] (by rwa [List.append_nil])

theorem hdr_ne_zero (list : FreeList h l front) (mem : b ∈ front) : b.hdr ≠ 0 :=
  list.chain.ne_zero (List.mem_map_of_mem mem)

/-- A list of 32-bit addresses that never repeats has at most `2 ^ 32` entries. -/
theorem length_le (list : FreeList h l front) : front.length ≤ 4294967296 := by
  have short := @Chain.length_le _ _ _ 4294967296 list.chain fun a mem => by
    obtain ⟨c, inFront, rfl⟩ := List.mem_map.mp mem
    have small := list.small c inFront
    unfold Block.stop at small
    omega
  rwa [List.length_map] at short

/-- Blocks of one list at different places have different, separate headers. -/
theorem headers_apart (list : FreeList h l front) {c : Block} (hb : b ∈ front) (hc : c ∈ front)
    (ne : b ≠ c) : HeadersApart b.hdr c.hdr :=
  (list.apart.forall hb hc ne).headers

/-- A block between two parts of a list is apart from the blocks of both. -/
theorem middle_apart (list : FreeList h l (front ++ b :: back)) {c : Block}
    (mem : c ∈ front ++ back) : b.Apart c := by
  have pairs := list.apart
  have moved := (List.perm_middle.pairwise_iff fun {_ _} => Block.Apart.symm).mp pairs
  exact (List.pairwise_cons.mp moved).1 c mem

end FreeList

namespace Heap

variable {M : Type} {h : Heap ByteMem M} {l : Fin 5} {front back : List Block}

/-- Storing through a link writes at most the header before it. -/
theorem assign_frame (h : Heap ByteMem M) (l : Fin 5) (front : List Block) (v : Nat) :
    HeaderFrame (front.map Block.hdr) h.mem (h.assign (linkAfter l front) v).mem := by
  unfold linkAfter
  cases last : front.getLast? with
  | none => exact HeaderFrame.refl _ _
  | some b =>
      exact HeaderFrame.setNext h.mem v (List.mem_map_of_mem (List.mem_of_getLast? last))

@[simp]
theorem assign_heapEnd (h : Heap ByteMem M) (link : Link) (v : Nat) :
    (h.assign link v).heapEnd = h.heapEnd := by
  cases link <;> rfl

@[simp]
theorem assign_mmu (h : Heap ByteMem M) (link : Link) (v : Nat) : (h.assign link v).mmu = h.mmu := by
  cases link <;> rfl

@[simp]
theorem assign_mapped (h : Heap ByteMem M) (link : Link) (v : Nat) :
    (h.assign link v).mapped = h.mapped := by
  cases link <;> rfl

theorem assign_other (h : Heap ByteMem M) (front : List Block) (v : Nat) {k : Fin 5} (ne : k ≠ l) :
    (h.assign (linkAfter l front) v).freelist k = h.freelist k := by
  unfold linkAfter
  cases front.getLast? with
  | none => exact Function.update_of_ne ne v h.freelist
  | some b => rfl

/-- A link store never writes a size. -/
theorem assign_sizeOf (h : Heap ByteMem M) {c : Nat} (v : Nat)
    (apart : ∀ b ∈ front, b.hdr = c ∨ HeadersApart b.hdr c) :
    sizeOf (h.assign (linkAfter l front) v).mem c = sizeOf h.mem c := by
  unfold linkAfter
  cases last : front.getLast? with
  | none => rfl
  | some b =>
      rcases apart b (List.mem_of_getLast? last) with same | off
      · rw [← same]
        exact sizeOf_setNext h.mem b.hdr v
      · exact sizeOf_setNext_off v off

/-- The list after storing `target` through the link behind `front`. -/
theorem assign_chain {back' : List Block} {target : Nat}
    (chain : Chain (nextOf h.mem) (h.freelist l) ((front ++ back).map Block.hdr))
    (tail : Chain (nextOf h.mem) target (back'.map Block.hdr))
    (small : target < 4294967296)
    (apart : (front ++ back').Pairwise fun b c => HeadersApart b.hdr c.hdr) :
    Chain (nextOf (h.assign (linkAfter l front) target).mem)
      ((h.assign (linkAfter l front) target).freelist l) ((front ++ back').map Block.hdr) := by
  obtain ⟨inFront, -, across⟩ := List.pairwise_append.mp apart
  rw [List.map_append] at chain ⊢
  rcases List.eq_nil_or_concat' front with rfl | ⟨init, last, rfl⟩
  · have head : (h.assign (.root l) target).freelist l = target := by
      simp [assign]
    rw [linkAfter_nil, head]
    exact tail
  · rw [linkAfter_snoc]
    refine chain.segment.relink (List.nodup_append.mp chain.nodup).1 (tail.congr ?_) ?_
      (fun h => by simp at h) (fun _ => rfl) ?_
    · intro a mem
      obtain ⟨c, inBack, rfl⟩ := List.mem_map.mp mem
      exact (nextOf_setNext_off target (across last (by simp) c inBack)).symm
    · intro a mem notLast
      have place : (∃ c, c ∈ init ∧ c.hdr = a) ∨ a = last.hdr := by simpa using mem
      rcases place with ⟨c, memInit, rfl⟩ | isLast
      swap
      · simp [isLast] at notLast
      have pair := (List.pairwise_append.mp inFront).2.2 c memInit last (by simp)
      exact nextOf_setNext_off target pair.symm
    · intro a mem
      have same : a = last.hdr := by simpa using mem.symm
      rw [same]
      exact nextOf_setNext h.mem last.hdr target small

/-- One block of a list is replaced, by another or by none: with the new headers written, `target`
is stored through the link behind `front`. -/
theorem assign_replace {x : Block} {new : List Block} {grown : Heap ByteMem M} {target : Nat}
    (list : FreeList h l (front ++ x :: back)) (head : grown.freelist l = h.freelist l)
    (next : ∀ c ∈ front ++ x :: back, nextOf grown.mem c.hdr = nextOf h.mem c.hdr)
    (size : ∀ c ∈ front ++ back, sizeOf grown.mem c.hdr = sizeOf h.mem c.hdr)
    (fresh : ∀ y ∈ new, sizeOf grown.mem y.hdr = y.size ∧ y.stop < 4294967296)
    (apart : new.Pairwise Block.Apart) (others : ∀ y ∈ new, ∀ c ∈ front ++ back, y.Apart c)
    (tail : Chain (nextOf grown.mem) target ((new ++ back).map Block.hdr)) (small : target < 4294967296) :
    FreeList (grown.assign (linkAfter l front) target) l (front ++ (new ++ back)) := by
  have sub : (front ++ back).Sublist (front ++ x :: back) :=
    List.Sublist.append_left (List.sublist_cons_self x back) front
  have newApart : (front ++ (new ++ back)).Pairwise Block.Apart := by
    refine (List.Perm.pairwise_iff (fun {_ _} => Block.Apart.symm) (List.perm_append_comm_assoc front new back)).mpr ?_
    exact List.pairwise_append.mpr ⟨apart, list.apart.sublist sub, others⟩
  have walked : Chain (nextOf grown.mem) (grown.freelist l) ((front ++ x :: back).map Block.hdr) := by
    rw [head]
    refine list.chain.congr fun a inAll => ?_
    obtain ⟨c, inC, rfl⟩ := List.mem_map.mp inAll
    exact (next c inC).symm
  have place : ∀ c ∈ front ++ (new ++ back), c ∈ new ∨ c ∈ front ++ back := fun c mem =>
    List.mem_append.mp ((List.perm_append_comm_assoc front new back).mem_iff.mp mem)
  refine ⟨assign_chain walked tail small (newApart.imp Block.Apart.headers), ?_, ?_, newApart⟩
  · intro c mem
    rcases place c mem with isNew | old
    · rw [assign_sizeOf]
      · exact (fresh c isNew).1
      · exact fun d inFront => Or.inr (others c isNew d (List.mem_append_left _ inFront)).headers.symm
    · rw [assign_sizeOf]
      · exact (size c old).trans (list.sizes c (sub.subset old))
      · intro d inFront
        by_cases same : d = c
        · exact Or.inl (congrArg Block.hdr same)
        · exact Or.inr (list.headers_apart (List.mem_append_left _ inFront) (sub.subset old) same)
  · intro c mem
    rcases place c mem with isNew | old
    · exact (fresh c isNew).2
    · exact list.small c (sub.subset old)

end Heap

end TrollOS.Mem
