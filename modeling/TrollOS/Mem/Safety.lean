import TrollOS.Mem.Session

/-!
# Heap safety

Every valid call returns, keeps the session tracked by a layout, and changes no
payload byte of a block it does not free, apart from the copy `krealloc` makes.
Over a whole run this gives the safety of every state reached.
-/

namespace TrollOS.Mem

open TrollOS.Lib

/-- The freed block is large, and both its neighbours are on the last list, the
upper one ahead of the lower one. -/
def Heap.DropsLower {μ M : Type} [HeapMemory μ] (h : Heap μ M) (ptr : Nat) : Prop :=
  64 < h.blockSize ptr ∧ ∃ front mid back low up,
    Chain (nextOf h.mem) (h.freelist 4) (front ++ up :: (mid ++ low :: back)) ∧
    low + sizeofHeader + sizeOf h.mem low = ptr - sizeofHeader ∧ ptr + h.blockSize ptr = up

namespace Session

section Statements

variable {μ M : Type} [HeapMemory μ] (mmuAllocAt : M → Nat → Nat × M)

/-- No `kfree` of the call drops a lower neighbour. -/
def FreesInOrder (s : Session μ M) : Call → Prop
  | .kmalloc _ => True
  | .kfree ptr => ¬ s.heap.DropsLower ptr
  | .krealloc ptr size =>
      if size = 0 then ¬ s.heap.DropsLower ptr
      else ∀ tmp h, s.heap.copyToNew mmuAllocAt ptr size = some (tmp, h) → ¬ h.DropsLower ptr

structure Payloads (s : Session μ M) (c : Call) (ptr : Nat) (t : Session μ M) : Prop where
  kept : ∀ a ∈ s.live, c.frees ≠ some a.ptr → ∀ i, i < s.heap.blockSize a.ptr →
    HeapMemory.load8 t.heap.mem (a.ptr + i) = HeapMemory.load8 s.heap.mem (a.ptr + i)
  copied : ∀ old size, c = .krealloc old size → size ≠ 0 → ∀ i,
    i < min (s.heap.blockSize old) size →
      HeapMemory.load8 t.heap.mem (ptr + i) = HeapMemory.load8 s.heap.mem (old + i)

def headers (s : Session μ M) (free : Fin 5 → List Nat) : List Nat :=
  s.live.map (fun a => a.ptr - sizeofHeader) ++ (List.finRange 5).flatMap free

/-- The safety of one state; `free l` are the headers met along `freelist[l]`. -/
structure Safe (base : Nat) (s : Session μ M) (free : Fin 5 → List Nat) : Prop where
  lists : ∀ l, Chain (nextOf s.heap.mem) (s.heap.freelist l) (free l)
  duplicateFree : ∀ l, (free l).Nodup
  notLive : ∀ a ∈ s.live, ∀ l, a.ptr - sizeofHeader ∉ free l
  aligned : ∀ hdr ∈ s.headers free, hdr % 4 = 0
  inside : ∀ hdr ∈ s.headers free,
    base ≤ hdr ∧ hdr + sizeofHeader + sizeOf s.heap.mem hdr ≤ s.heap.heapEnd
  disjoint : (s.headers free).Pairwise fun a b =>
    a + sizeofHeader + sizeOf s.heap.mem a ≤ b ∨ b + sizeofHeader + sizeOf s.heap.mem b ≤ a
  enough : ∀ a ∈ s.live, a.requested ≤ s.heap.blockSize a.ptr

end Statements

variable {M : Type} (mmuAllocAt : M → Nat → Nat × M)

/-- What a valid call does. -/
structure Outcome (base : Nat) (s : Session ByteMem M) (L : Layout) (c : Call) (ptr : Nat)
    (t : Session ByteMem M) (L' : Layout) : Prop where
  tracks : Tracks base t L'
  payloads : Payloads s c ptr t
  lost : s.FreesInOrder mmuAllocAt c → L'.lost = L.lost

variable {mmuAllocAt}

theorem mem_revoke {live : List Owned} {a : Owned} {ptr : Nat} (mem : a ∈ live)
    (other : a.ptr ≠ ptr) : a ∈ revoke live ptr :=
  (List.mem_eraseP_of_neg (by simpa using other)).mpr mem

/-- A payload address is never null. -/
theorem grant_block (live : List Owned) (hdr size : Nat) :
    grant live (hdr + sizeofHeader) size = ⟨hdr + sizeofHeader, size⟩ :: live :=
  if_neg (Nat.succ_ne_zero _)

section Steps

variable {base : Nat} {s : Session ByteMem M} {L : Layout} {size ptr : Nat}

/-- Bytes of kept blocks, seen from the pointers. -/
theorem Tracks.payload_kept (tracks : Tracks base s L) {h' : Heap ByteMem M} {bs : List Block}
    (kept : Rep.Kept bs s.heap h') {a : Owned} (mem : a ∈ s.live)
    (inBs : s.heap.blockAt a.ptr ∈ bs) (i : Nat) (inside : i < s.heap.blockSize a.ptr) :
    h'.mem (a.ptr + i) = s.heap.mem (a.ptr + i) := by
  have start := tracks.payload mem
  refine kept _ inBs (a.ptr + i) (by omega) ?_
  unfold Block.stop
  rw [start]
  exact Nat.add_lt_add_left inside _

/-- A scan order that drops a block is visible in the heap. -/
theorem dropsLower_of_upperFirst {h : Heap ByteMem M} {b : Block} (rep : Rep base h L)
    (sized : sizeOf h.mem b.hdr = b.size) (large : 64 < b.size)
    (order : UpperFirst b (L.free 4)) : h.DropsLower (b.hdr + sizeofHeader) := by
  obtain ⟨front, mid, back, low, up, meetLow, meetUp, shape⟩ := order
  have chain := rep.chains 4
  rw [shape] at chain
  have lowOk := rep.headers low (@Rep.free_mem_blocks L 4 low (by rw [shape]; simp))
  constructor
  · unfold Heap.blockSize
    rw [Nat.add_sub_cancel, sized]
    exact large
  · refine ⟨front.map Block.hdr, mid.map Block.hdr, back.map Block.hdr, low.hdr, up.hdr, ?_, ?_, ?_⟩
    · simpa using chain
    · rw [lowOk.size_eq, Nat.add_sub_cancel]
      exact meetLow
    · unfold Heap.blockSize
      rw [Nat.add_sub_cancel, sized]
      exact meetUp

theorem order_of_not_dropsLower {h : Heap ByteMem M} {b : Block} (rep : Rep base h L)
    (sized : sizeOf h.mem b.hdr = b.size) (safe : ¬ h.DropsLower (b.hdr + sizeofHeader)) :
    b.size ≤ 64 ∨ ¬ UpperFirst b (L.free 4) := by
  by_cases large : b.size ≤ 64
  · exact Or.inl large
  · exact Or.inr fun order =>
      safe (dropsLower_of_upperFirst rep sized (Nat.lt_of_not_le large) order)

theorem exec_kmalloc (tracks : Tracks base s L) (valid : s.Valid (.kmalloc size)) :
    ∃ ptr t L', s.exec mmuAllocAt (.kmalloc size) = some (ptr, t) ∧
      Outcome mmuAllocAt base s L (.kmalloc size) ptr t L' := by
  by_cases zero : size = 0
  · refine ⟨0, s, L, ?_, tracks, ⟨fun _ _ _ _ _ => rfl, ?_⟩, fun _ => rfl⟩
    · simp [exec, Heap.kmalloc, zero, grant, Heap.tails]
    · exact fun _ _ same => nomatch same
  · obtain ⟨b, h', L', call, served⟩ :=
      tracks.rep.kmalloc mmuAllocAt (Nat.pos_of_ne_zero zero) (valid zero)
    have kept := served.kept
    have live := served.live
    have tails : L'.slack = s.heap.tails h' size ++ s.slack := by
      rw [← tracks.slack]
      exact served.slack
    refine ⟨b.hdr + sizeofHeader, ⟨h', ⟨b.hdr + sizeofHeader, size⟩ :: s.live,
      s.heap.tails h' size ++ s.slack⟩, L', ?_, ?_, ⟨?_, ?_⟩, fun _ => served.lost⟩
    · simp [exec, call, grant_block]
    · rw [tracks.live] at kept live
      exact tracks.carry_new (fun _ mem => mem) kept served.rep live served.enough tails
    · exact fun a mem _ => tracks.payload_kept kept mem (tracks.block_mem mem)
    · exact fun _ _ same => nomatch same

theorem exec_kfree (tracks : Tracks base s L) (valid : s.Valid (.kfree ptr)) :
    ∃ t L', s.exec mmuAllocAt (.kfree ptr) = some (0, t) ∧
      Outcome mmuAllocAt base s L (.kfree ptr) 0 t L' := by
  obtain ⟨a, mem, rfl, sub, live⟩ := tracks.owner valid
  obtain ⟨h', L', call, freed⟩ := tracks.rep.kfree live
  have start := tracks.payload mem
  rw [start] at call
  refine ⟨⟨h', revoke s.live a.ptr, s.slack⟩, L', ?_, tracks.carry sub freed.kept freed.rep
    freed.live (freed.slack.trans tracks.slack), ⟨?_, ?_⟩, fun order => freed.lost ?_⟩
  · simp [exec, call]
  · intro c inLive other
    have stays : c ∈ revoke s.live a.ptr :=
      mem_revoke inLive fun same => other (congrArg some same.symm)
    exact tracks.payload_kept freed.kept inLive (List.mem_map.mpr ⟨c, stays, rfl⟩)
  · exact fun _ _ same => nomatch same
  · refine order_of_not_dropsLower tracks.rep rfl ?_
    rw [start]
    exact order

theorem exec_krealloc (tracks : Tracks base s L) (valid : s.Valid (.krealloc ptr size)) :
    ∃ new t L', s.exec mmuAllocAt (.krealloc ptr size) = some (new, t) ∧
      Outcome mmuAllocAt base s L (.krealloc ptr size) new t L' := by
  obtain ⟨isLive, more⟩ := valid
  obtain ⟨a, mem, rfl, sub, live⟩ := tracks.owner isLive
  have start := tracks.payload mem
  have nonnull : a.ptr ≠ 0 := by
    have low := tracks.ptrs a mem
    unfold sizeofHeader at low
    omega
  have survives : ∀ c ∈ s.live, (Call.krealloc a.ptr size).frees ≠ some c.ptr →
      s.heap.blockAt c.ptr ∈ (revoke s.live a.ptr).map fun a => s.heap.blockAt a.ptr := by
    intro c inLive other
    exact List.mem_map.mpr
      ⟨c, mem_revoke inLive fun same => other (congrArg some same.symm), rfl⟩
  by_cases zero : size = 0
  · obtain ⟨h', L', call, freed⟩ := tracks.rep.kfree live
    rw [start] at call
    refine ⟨0, ⟨h', revoke s.live a.ptr, s.slack⟩, L', ?_, tracks.carry sub freed.kept freed.rep
      freed.live (freed.slack.trans tracks.slack), ⟨?_, ?_⟩, fun order => freed.lost ?_⟩
    · simp [exec, Heap.krealloc, nonnull, zero, call, grant, Heap.tails_nil freed.heapEnd]
    · exact fun c inLive other => tracks.payload_kept freed.kept inLive (survives c inLive other)
    · rintro old n ⟨⟩ pos
      exact absurd zero pos
    · refine order_of_not_dropsLower tracks.rep rfl ?_
      simp only [FreesInOrder, if_pos zero] at order
      rw [start]
      exact order
  · obtain ⟨c, h₁, L₁, h', L', copyCall, copied, freed, call⟩ :=
      tracks.rep.krealloc mmuAllocAt live (Nat.pos_of_ne_zero zero) (more zero)
    rw [start] at copyCall call
    have keptTail : Rep.Kept ((revoke s.live a.ptr).map fun a => s.heap.blockAt a.ptr) h₁ h' :=
      fun d inD => freed.kept d (List.mem_cons_of_mem _ inD)
    have keptFirst : Rep.Kept ((revoke s.live a.ptr).map fun a => s.heap.blockAt a.ptr)
        s.heap h₁ := fun d inD =>
      copied.kept d (live.mem_iff.mpr (List.mem_cons_of_mem _ inD))
    have kept := keptFirst.trans keptTail
    have tails : L'.slack = s.heap.tails h' size ++ s.slack := by
      rw [Heap.tails_congr freed.heapEnd, ← tracks.slack]
      exact freed.slack.trans copied.slack
    refine ⟨c.hdr + sizeofHeader, ⟨h', ⟨c.hdr + sizeofHeader, size⟩ :: revoke s.live a.ptr,
      s.heap.tails h' size ++ s.slack⟩, L', ?_, ?_, ⟨?_, ?_⟩, ?_⟩
    · simp [exec, call, grant_block]
    · exact tracks.carry_new sub kept freed.rep freed.live copied.enough tails
    · exact fun d inLive other => tracks.payload_kept kept inLive (survives d inLive other)
    · rintro old n ⟨⟩ - i inside
      have enough := copied.enough
      refine (freed.kept c List.mem_cons_self _ (by omega) ?_).trans ?_
      · unfold Block.stop
        omega
      · rw [← start]
        exact copied.copied i inside
    · intro order
      simp only [FreesInOrder, if_neg zero] at order
      refine (freed.lost ?_).trans copied.lost
      have okA := copied.rep.headers (s.heap.blockAt a.ptr) (Rep.live_mem_blocks (by
        rw [copied.live]
        exact List.mem_cons_of_mem _ (tracks.block_mem mem)))
      refine order_of_not_dropsLower copied.rep okA.size_eq ?_
      rw [start]
      exact order _ _ copyCall

/-- Every valid call returns. -/
theorem exec_valid (tracks : Tracks base s L) {c : Call} (valid : s.Valid c) :
    ∃ ptr t L', s.exec mmuAllocAt c = some (ptr, t) ∧ Outcome mmuAllocAt base s L c ptr t L' := by
  cases c with
  | kmalloc size => exact exec_kmalloc tracks valid
  | kfree ptr => exact ⟨0, exec_kfree tracks valid⟩
  | krealloc ptr size => exact exec_krealloc tracks valid

/-- An owner writing its payload. -/
theorem write_tracks (tracks : Tracks base s L) {a : Owned} {mem' : ByteMem} (owned : a ∈ s.live)
    (frame : ∀ x, x < a.ptr ∨ a.ptr + s.heap.blockSize a.ptr ≤ x → mem' x = s.heap.mem x) :
    Tracks base { s with heap := { s.heap with mem := mem' } } L := by
  have start := tracks.payload owned
  have rep' := tracks.rep.writePayload (tracks.block_mem owned) fun x off => frame x (by
    unfold Block.stop at off
    rw [start] at off
    exact off)
  have sizes : ∀ c ∈ s.live, sizeOf mem' (c.ptr - sizeofHeader) = s.heap.blockSize c.ptr :=
    fun c inLive => (rep'.headers _ (Rep.live_mem_blocks (tracks.block_mem inLive))).size_eq
  constructor
  · exact rep'
  · refine tracks.live.trans (List.map_congr_left fun c inLive => ?_)
    unfold Heap.blockAt
    exact congrArg (Block.mk _) (sizes c inLive).symm
  · exact tracks.slack
  · exact tracks.ptrs
  · intro c inLive
    change c.requested ≤ sizeOf mem' (c.ptr - sizeofHeader)
    rw [sizes c inLive]
    exact tracks.enough c inLive

end Steps

section Runs

variable {permits : Session ByteMem M → Call → Prop} {base : Nat} {s : Session ByteMem M}

/-- A byte of a payload may be written. -/
theorem write_byte {L : Layout} (tracks : Tracks base s L) {a : Owned} (owned : a ∈ s.live) {i : Nat}
    (inside : i < s.heap.blockSize a.ptr) (b : UInt8) : Tracks base (s.write (a.ptr + i) b) L :=
  write_tracks tracks owned fun _ off => Function.update_of_ne (by omega) _ _

/-- Every session reached is tracked by a layout. -/
theorem Permitted.tracks (run : Permitted mmuAllocAt permits base s) : ∃ L, Tracks base s L := by
  induction run with
  | start init =>
      obtain ⟨L, tracks, -⟩ := init.tracks
      exact ⟨L, tracks⟩
  | @call s t c ptr run valid permitted ran ih =>
      obtain ⟨L, tracks⟩ := ih
      obtain ⟨ptr', t', L', ran', outcome⟩ := @exec_valid M mmuAllocAt _ s L tracks c valid
      rw [ran] at ran'
      obtain ⟨rfl, rfl⟩ := Prod.mk.inj (Option.some.inj ran')
      exact ⟨L', outcome.tracks⟩
  | write b run owned inside ih =>
      obtain ⟨L, tracks⟩ := ih
      exact ⟨L, write_byte tracks owned inside b⟩

/-- What holds at the start, survives writes and is kept by the permitted calls holds in every
state of a run. -/
theorem Permitted.invariant {P : Session ByteMem M → Prop} (run : Permitted mmuAllocAt permits base s)
    (start : ∀ s, Initial base s → P s)
    (call : ∀ s L c ptr t, Tracks base s L → P s → s.Valid c → permits s c →
      s.exec mmuAllocAt c = some (ptr, t) → P t)
    (write : ∀ s L x b, Tracks base s L → Tracks base (s.write x b) L → P s → P (s.write x b)) : P s := by
  induction run with
  | start init => exact start _ init
  | call run valid permitted ran ih =>
      obtain ⟨L, tracks⟩ := run.tracks
      exact call _ L _ _ _ tracks ih valid permitted ran
  | write b run owned inside ih =>
      obtain ⟨L, tracks⟩ := run.tracks
      exact write _ L _ b tracks (write_byte tracks owned inside b) ih

end Runs

theorem Tracks.headers_eq {base : Nat} {s : Session ByteMem M} {L : Layout} (tracks : Tracks base s L) :
    s.headers (fun l => (L.free l).map Block.hdr) = L.blocks.map Block.hdr := by
  unfold headers Layout.blocks Layout.freeBlocks
  rw [List.map_append, List.map_flatMap, tracks.live, List.map_map]
  rfl

theorem Tracks.safe {base : Nat} {s : Session ByteMem M} {L : Layout} (tracks : Tracks base s L) :
    Safe base s fun l => (L.free l).map Block.hdr := by
  have rep := tracks.rep
  have all := tracks.headers_eq
  constructor
  · exact rep.chains
  · exact fun l => (rep.chains l).nodup
  · intro a mem l inList
    obtain ⟨b, inFree, same⟩ := List.mem_map.mp inList
    have apart := (List.pairwise_append.mp rep.blocks_apart).2.2 _ (tracks.block_mem mem) b
      (Layout.mem_freeBlocks.mpr ⟨l, inFree⟩)
    have hdrEq : (s.heap.blockAt a.ptr).hdr = b.hdr := same.symm
    unfold Block.Apart Block.stop sizeofHeader at apart
    omega
  · rw [all]
    intro hdr mem
    obtain ⟨b, inBlocks, rfl⟩ := List.mem_map.mp mem
    exact (rep.headers b inBlocks).hdr_aligned
  · rw [all]
    intro hdr mem
    obtain ⟨b, inBlocks, rfl⟩ := List.mem_map.mp mem
    rw [(rep.headers b inBlocks).size_eq]
    exact rep.bounds inBlocks
  · rw [all, List.pairwise_map]
    refine rep.blocks_apart.imp_of_mem fun {b c} inB inC apart => ?_
    rw [(rep.headers b inB).size_eq, (rep.headers c inC).size_eq]
    exact apart
  · exact tracks.enough

/-- The session after a call; where the call does not return, the session before it. -/
def after {μ M : Type} [HeapMemory μ] (mmuAllocAt : M → Nat → Nat × M) (s : Session μ M) (c : Call) :
    Session μ M :=
  ((s.exec mmuAllocAt c).map Prod.snd).getD s

end Session

end TrollOS.Mem
