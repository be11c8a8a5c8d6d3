import TrollOS.Mmu.Startup

/-!
# The counter of free frames

`_alloc_frame` lowers `free_frames` and `_free_frame` leaves it alone.  The counter
stays the length of the free list as long as frames are only taken.
-/

namespace TrollOS

open TrollOS.Lib Mmu

namespace Frames

/-! ## The tables on the way to a page -/

/-- The tables a walk to an address meets. -/
def path (mem : ByteMem) (virt : Nat) : Nat → Nat → List Nat
  | 0, _ => []
  | 1, table => [table]
  | level + 2, table =>
      table :: (child mem (level + 2) table (index (level + 2) virt)).elim [] (path mem virt (level + 1))

/-- The free list, and the counter is its length. -/
structure Counted (s : Frames) (chain : List Nat) : Prop where
  pool : Pool s chain
  length : s.freeFrames = chain.length

variable {s : Frames} {chain : List Nat} {virt level table : Nat} {supervisor writeProtected : Bool}

theorem path_self (mem : ByteMem) (virt level table : Nat) : table ∈ path mem virt (level + 1) table := by
  cases level with
  | zero => exact List.mem_cons_self
  | succ level => exact List.mem_cons_self

theorem path_child {mem : ByteMem} {c : Nat} (leads : child mem (level + 2) table (index (level + 2) virt) = some c) :
    path mem virt (level + 2) table = table :: path mem virt (level + 1) c := by
  show table :: (child mem (level + 2) table (index (level + 2) virt)).elim [] _ = _
  rw [leads, Option.elim_some]

/-- From a table of zeros there is no way on. -/
theorem path_zero {mem : ByteMem} (zero : ∀ i, i < 128 → mem.load32 (table + 4 * i) = 0) :
    path mem virt (level + 1) table = [table] := by
  cases level with
  | zero => rfl
  | succ level =>
      show table :: (child mem (level + 2) table (index (level + 2) virt)).elim [] _ = _
      rw [child_zero zero (index_lt (level + 2) virt), Option.elim_none]

/-- A page is placed where none was: nothing but the frames taken and the tables on the way
changes. -/
theorem place_page_took (pool : Pool s chain)
    (outside : ∀ t ∈ path s.mem virt 1 table, t % pageSize = 0 ∧ t ∉ chain)
    (gone : lookup s.mem 1 table virt = none) (enough : wanted s.mem virt 1 table ≤ s.freeFrames) :
    ∃ frame s' used rest, place virt supervisor writeProtected 1 table s = some (frame, s') ∧
      Took s s' chain used rest ∧ Unchanged pageSize s.mem s'.mem (used ++ path s.mem virt 1 table) := by
  have left : s.freeFrames ≠ 0 := Nat.ne_of_gt enough
  obtain ⟨aligned, apart⟩ := outside table List.mem_cons_self
  have leads : child s.mem 1 table (index 1 virt) = none := by
    cases page : child s.mem 1 table (index 1 virt) with
    | none => rfl
    | some c => exact nomatch (lookup_page page).symm.trans gone
  obtain ⟨f, rest, rfl, -, -⟩ := pool.alloc left
  obtain ⟨mem, ran, pool', unchanged, -⟩ := @fillEntry_spec s rest table (index 1 virt) f supervisor
    writeProtected pool left (index_lt 1 virt) aligned apart
  exact ⟨f, _, [f], rest, (bind_ran (replacePage_none aligned (index_lt 1 virt) leads)).trans ran,
    ⟨rfl, pool', Nat.sub_add_cancel (Nat.pos_of_ne_zero left)⟩, unchanged⟩

/-- Frames are taken for the tables that are missing, and for the page. -/
theorem place_took (level : Nat) (pool : Pool s chain)
    (outside : ∀ t ∈ path s.mem virt (level + 1) table, t % pageSize = 0 ∧ t ∉ chain)
    (gone : lookup s.mem (level + 1) table virt = none)
    (enough : wanted s.mem virt (level + 1) table ≤ s.freeFrames) :
    ∃ frame s' used rest, place virt supervisor writeProtected (level + 1) table s = some (frame, s') ∧
      Took s s' chain used rest ∧
        Unchanged pageSize s.mem s'.mem (used ++ path s.mem virt (level + 1) table) := by
  induction level generalizing s chain table with
  | zero => exact place_page_took pool outside gone enough
  | succ level ih =>
      obtain ⟨aligned, apart⟩ := outside table List.mem_cons_self
      have bound := index_lt (level + 2) virt
      cases leads : child s.mem (level + 2) table (index (level + 2) virt) with
      | some c =>
          have way := path_child leads
          have same : wanted s.mem virt (level + 2) table = wanted s.mem virt (level + 1) c := by
            show (child s.mem (level + 2) table (index (level + 2) virt)).elim (level + 2) _ = _
            rw [leads, Option.elim_some]
          obtain ⟨frame, s', used, rest, ran, took, unchanged⟩ := ih pool
            (fun t member => outside t (way ▸ List.mem_cons_of_mem _ member))
            ((lookup_child leads).symm.trans gone) (same ▸ enough)
          refine ⟨frame, s', used, rest, (bind_ran (tableAt_some aligned bound leads)).trans ran, took,
            unchanged.mono fun f member => ?_⟩
          rw [way]
          rcases List.mem_append.mp member with isUsed | onWay
          · exact List.mem_append_left _ isUsed
          · exact List.mem_append_right _ (List.mem_cons_of_mem _ onWay)
      | none =>
          have all : wanted s.mem virt (level + 2) table = level + 2 := by
            show (child s.mem (level + 2) table (index (level + 2) virt)).elim (level + 2) _ = _
            rw [leads, Option.elim_none]
          have enough' : level + 2 ≤ s.freeFrames := Nat.le_trans (Nat.le_of_eq all.symm) enough
          have left : s.freeFrames ≠ 0 := Nat.ne_of_gt (Nat.lt_of_lt_of_le (Nat.succ_pos _) enough')
          obtain ⟨f, rest, rfl, -, -⟩ := pool.alloc left
          have frame := pool.frames f List.mem_cons_self
          obtain ⟨mem, made, pool', unchanged, -, -, zero⟩ := tableAt_made (level + 2) (by omega)
            pool left aligned apart bound leads
          have fresh := (List.nodup_cons.mp pool.distinct).1
          obtain ⟨page, s', used, rest', ran, took, unchanged'⟩ := @ih
            { taken s f with mem := mem } rest f pool'
            (fun t member => by
              rw [path_zero zero] at member
              obtain rfl := List.mem_singleton.mp member
              exact ⟨frame.aligned, fresh⟩)
            (lookup_zero zero virt)
            (by
              rw [wanted_zero zero]
              exact Nat.le_sub_one_of_lt enough')
          have count : s'.freeFrames + used.length = s.freeFrames - 1 := took.count
          refine ⟨page, s', f :: used, rest', (bind_ran made).trans ran, ⟨?_, took.pool, ?_⟩, ?_⟩
          · rw [took.split, List.cons_append]
          · rw [List.length_cons]
            omega
          · rw [path_zero zero] at unchanged'
            have start := path_self s.mem virt (level + 1) table
            refine (unchanged.mono fun g member => ?_).trans (unchanged'.mono fun g member => ?_)
            · rcases List.mem_cons.mp member with isNew | isTable
              · exact isNew ▸ List.mem_cons_self
              · exact List.mem_append_right _ (List.mem_singleton.mp isTable ▸ start)
            · rcases List.mem_append.mp member with isUsed | isNew
              · exact List.mem_append_left _ (List.mem_cons_of_mem _ isUsed)
              · exact List.mem_singleton.mp isNew ▸ List.mem_cons_self

end Frames

namespace Mmu

open Frames

/-! ## Runs from the start -/

/-- What happens after the start: a request of the user side, a page for the supervisor, or a
change of the memory. -/
inductive Event
  | request (r : Request)
  | allocSupervisor (virt : Nat) (writeProtected : Bool)
  | store (mem : ByteMem)

def UserSpaces.act (u : UserSpaces) : Event → Option UserSpaces
  | .request r => u.serve r
  | .allocSupervisor virt writeProtected =>
      (Mmu.allocAt virt true writeProtected u.mmu).map fun result => ⟨result.2, u.live⟩
  | .store mem => some ⟨{ u.mmu with mem := mem }, u.live⟩

/-- Something is put where nothing was, and nothing is given back. -/
def UserSpaces.TakesOnly (u : UserSpaces) : Request → Prop
  | .allocAt virt _ => lookup u.mmu.mem 3 (rootLevelFieldAddr u.mmu.urp) virt = none
  | .clearUserspace userspace => below u.mmu.mem 3 (rootLevelFieldAddr userspace) = []
  | .freeUserspace _ => False
  | _ => True

/-- The tables the supervisor has on the way to an address are neither free nor in a user space. -/
def UserSpaces.OwnTables (u : UserSpaces) (virt : Nat) : Prop :=
  ∀ t ∈ path u.mmu.mem virt 3 (rootLevelFieldAddr u.mmu.srp), t % pageSize = 0 ∧
    (∀ chain, Chain (fun f => u.mmu.mem.load32 f) u.mmu.memLayout.freeFrame chain → t ∉ chain) ∧
      t ∉ trees u.mmu.mem u.roots

/-- The free list and the spaces are the same in another memory. -/
def UserSpaces.SameFrames (u : UserSpaces) (mem : ByteMem) : Prop :=
  (∀ chain, Chain (fun f => u.mmu.mem.load32 f) u.mmu.memLayout.freeFrame chain →
    ∀ f ∈ chain, u.mmu.mem.load32 f = mem.load32 f) ∧
      trees mem u.roots = trees u.mmu.mem u.roots

/-- The events of a run in which no frame is given back. -/
def UserSpaces.Takes (u : UserSpaces) : Event → Prop
  | .request r => u.Allowed r ∧ u.TakesOnly r
  | .allocSupervisor virt _ =>
      Supplied u.mmu u.mmu.srp virt ∧ u.OwnTables virt ∧
        lookup u.mmu.mem 3 (rootLevelFieldAddr u.mmu.srp) virt = none
  | .store mem => u.SameFrames mem

/-- The events a caller may cause, whether they give back frames or not. -/
def UserSpaces.May (u : UserSpaces) : Event → Prop
  | .request r => u.Allowed r
  | .allocSupervisor virt _ => Supplied u.mmu u.mmu.srp virt ∧ u.OwnTables virt
  | .store mem => u.SameFrames mem

/-- The events of a run, each permitted where it happens. -/
def UserSpaces.Happen (permits : UserSpaces → Event → Prop) :
    UserSpaces → List Event → UserSpaces → Prop
  | u, [], u' => u' = u
  | u, e :: rest, u' => permits u e ∧ ∃ v, u.act e = some v ∧ Happen permits v rest u'

/-- The counter is the length of the free list, and `_alloc_frame` returns 0 exactly when the
list is empty, and otherwise its first frame. -/
def Exact (m : Mmu) : Prop :=
  ∃ chain, Chain (fun f => m.mem.load32 f) m.memLayout.freeFrame chain ∧
    m.memLayout.freeFrames = chain.length ∧
      ∃ f m', allocFrame m = some (f, m') ∧ f = chain.headD 0 ∧ (f = 0 ↔ chain = []) ∧
        Chain (fun f => m'.mem.load32 f) m'.memLayout.freeFrame chain.tail

def UserSpaces.Steady (u : UserSpaces) : Prop :=
  u.mmu.mapping = 0 ∧ ∃ frames chain, Frames.Owned frames u.mmu.frames u.roots chain ∧
    u.mmu.memLayout.freeFrames = chain.length

section Steady

variable {u v : UserSpaces} {m m' : Mmu} {frames chain : List Nat}

theorem exact_of_counted (mapping : m.mapping = 0) (counted : Counted m.frames chain) : Exact m := by
  refine ⟨chain, counted.pool.linked, counted.length, ?_⟩
  by_cases empty : m.memLayout.freeFrames = 0
  · have none : chain = [] := List.eq_nil_of_length_eq_zero (counted.length.symm.trans empty)
    have got : Frames.alloc m.frames = some (0, m.frames) := alloc_empty empty
    obtain ⟨m', ran, done⟩ := run_of_simulates (fun _ => Simulates.alloc (by decide) _) mapping got
    subst none
    refine ⟨0, m', ran, rfl, ⟨fun _ => rfl, fun _ => rfl⟩, ?_⟩
    exact done.freeFrame.trans counted.pool.linked
  · obtain ⟨f, rest, rfl, got, pool⟩ := counted.pool.alloc empty
    obtain ⟨m', ran, done⟩ := run_of_simulates (fun _ => Simulates.alloc (by decide) _) mapping got
    refine ⟨f, m', ran, rfl, ⟨fun zero => ?_, fun wrong => nomatch wrong⟩, ?_⟩
    · exact absurd zero (counted.pool.frames f List.mem_cons_self).positive
    · rw [← done.frames] at pool
      exact pool.linked

theorem UserSpaces.Steady.exact (steady : u.Steady) : Exact u.mmu := by
  obtain ⟨mapping, frames, chain, owned, length⟩ := steady
  exact exact_of_counted mapping ⟨owned.pool, length⟩

namespace UserSpaces

theorem steady_initUserspace (steady : u.Steady) (served : u.serve .initUserspace = some v) : v.Steady := by
  obtain ⟨mapping, frames, chain, owned, length⟩ := steady
  by_cases empty : u.mmu.memLayout.freeFrames = 0
  · obtain ⟨m, ran, done⟩ := initUserspace_none mapping empty
    have served' : u.serve .initUserspace = some ⟨m, u.live⟩ := by
      show (Mmu.initUserspace u.mmu).map _ = _
      rw [ran]
      rfl
    obtain rfl := Option.some.inj (served'.symm.trans served)
    have same : m.frames = u.mmu.frames := done.frames
    refine ⟨done.mapping, frames, chain, ?_, done.freeFrames.trans length⟩
    rw [same]
    exact owned
  · obtain ⟨f, rest, got, valid, owned', -, moved⟩ := owned.alloc empty
    obtain ⟨m, ran, frames', mapping', -, -⟩ := initUserspace_some mapping got valid
    obtain rfl := Option.some.inj ((serve_initUserspace_some ran).symm.trans served)
    have frame : IsFrame f := owned'.valid_tree List.mem_cons_self f List.mem_cons_self
    have roots : roots ⟨m, rootLevelAddrField f :: u.live⟩ = f :: u.roots :=
      congrArg (· :: u.roots) (rootLevelFieldAddr_addrField frame)
    refine ⟨mapping', frames, rest, ?_, ?_⟩
    · rw [roots]
      exact frames' ▸ owned'
    · have fewer : m.memLayout.freeFrames = u.mmu.memLayout.freeFrames - 1 := congrArg Frames.freeFrames frames'
      have perm := moved.perm.length_eq
      rw [List.length_append, List.length_singleton] at perm
      rw [fewer, length, ← perm]
      rfl

theorem steady_allocAt (steady : u.Steady) {virt : Nat} {writeProtected : Bool} (current : u.mmu.urp ∈ u.live)
    (supplied : Supplied u.mmu u.mmu.urp virt)
    (gone : lookup u.mmu.mem 3 (rootLevelFieldAddr u.mmu.urp) virt = none)
    (served : u.serve (.allocAt virt writeProtected) = some v) : v.Steady := by
  obtain ⟨mapping, frames, chain, owned, length⟩ := steady
  obtain ⟨frame, m, used, rest, ran, done, placement, owned', -⟩ := allocAt_owned mapping false
    writeProtected virt rfl owned (mem_roots current) supplied
  have served' : u.serve (.allocAt virt writeProtected) = some ⟨m, u.live⟩ := by
    show (Mmu.allocAt virt false writeProtected u.mmu).map _ = _
    rw [ran]
    rfl
  obtain rfl := Option.some.inj (served'.symm.trans served)
  refine ⟨done.mapping, frames, rest, owned', ?_⟩
  have count : m.memLayout.freeFrames + wanted u.mmu.mem virt 3 (rootLevelFieldAddr u.mmu.urp) =
      u.mmu.memLayout.freeFrames := placement.count
  have taken : used.length = wanted u.mmu.mem virt 3 (rootLevelFieldAddr u.mmu.urp) :=
    placement.length gone
  have split := congrArg List.length placement.split
  rw [List.length_append] at split
  show m.memLayout.freeFrames = rest.length
  omega

theorem steady_cloneUserspace (steady : u.Steady) {source target : Nat}
    (named : u.Named (.cloneUserspace source target))
    (served : u.serve (.cloneUserspace source target) = some v) : v.Steady := by
  obtain ⟨mapping, frames, chain, owned, length⟩ := steady
  obtain ⟨sourceIn, targetIn, other, empty⟩ := named
  have apart : rootLevelFieldAddr source ≠ rootLevelFieldAddr target :=
    fun same => other (rootLevelFieldAddr_injective same)
  obtain ⟨r, s, used, rest, ran, took, owned', -⟩ :=
    owned.copy (mem_roots sourceIn) (mem_roots targetIn) apart empty
  obtain ⟨m, ran', done⟩ := run_of_simulates
    (fun _ => cloneUserspace_simulates (by decide) source target) mapping ran
  obtain rfl := done.frames
  have served' : u.serve (.cloneUserspace source target) = some ⟨m, u.live⟩ := by
    show (Mmu.cloneUserspace source target u.mmu).map _ = _
    rw [ran']
    rfl
  obtain rfl := Option.some.inj (served'.symm.trans served)
  refine ⟨done.mapping, frames, rest, owned', ?_⟩
  have count : m.memLayout.freeFrames + used.length = u.mmu.memLayout.freeFrames := took.count
  have split := congrArg List.length took.split
  rw [List.length_append] at split
  show m.memLayout.freeFrames = rest.length
  omega

theorem steady_clearUserspace (steady : u.Steady) {userspace : Nat} (member : userspace ∈ u.live)
    (nothing : below u.mmu.mem 3 (rootLevelFieldAddr userspace) = [])
    (served : u.serve (.clearUserspace userspace) = some v) : v.Steady := by
  obtain ⟨mapping, frames, chain, owned, length⟩ := steady
  obtain ⟨s, freed, ran, perm, count, -, owned', -⟩ := owned.clear (mem_roots member)
  obtain ⟨m, ran', done⟩ := run_of_simulates
    (fun _ => clearUserspace_simulates (by decide) userspace) mapping ran
  obtain rfl := done.frames
  have served' : u.serve (.clearUserspace userspace) = some ⟨m, u.live⟩ := by
    show (Mmu.clearUserspace userspace u.mmu).map _ = _
    rw [ran']
    rfl
  obtain rfl := Option.some.inj (served'.symm.trans served)
  have none : freed = [] := List.Perm.eq_nil (perm.trans (List.Perm.of_eq nothing))
  subst none
  exact ⟨done.mapping, frames, chain, owned', count.trans length⟩

/-- A request that gives nothing back. -/
theorem steady_serve (steady : u.Steady) {r : Request} (allowed : u.Allowed r) (takesOnly : u.TakesOnly r)
    (served : u.serve r = some v) : v.Steady := by
  obtain ⟨named, current⟩ := allowed
  cases r with
  | initUserspace => exact steady_initUserspace steady served
  | allocAt virt writeProtected =>
      exact steady_allocAt steady (current virt writeProtected rfl) named takesOnly served
  | switchUserspace userspace =>
      obtain rfl := Option.some.inj served
      exact steady
  | cloneUserspace source target => exact steady_cloneUserspace steady named served
  | clearUserspace userspace => exact steady_clearUserspace steady named takesOnly served
  | freeUserspace userspace => exact takesOnly.elim

/-- A page for the supervisor: its frames belong to no user space. -/
theorem allocSupervisor_owned (mapping : u.mmu.mapping = 0)
    (owned : Frames.Owned frames u.mmu.frames u.roots chain) {virt : Nat} {writeProtected : Bool}
    (takes : u.Takes (.allocSupervisor virt writeProtected))
    (acts : u.act (.allocSupervisor virt writeProtected) = some v) :
    ∃ frame used rest,
      Frames.place virt true writeProtected 3 (rootLevelFieldAddr u.mmu.srp) u.mmu.frames =
        some (frame, v.mmu.frames) ∧ Took u.mmu.frames v.mmu.frames chain used rest ∧
      v.mmu.mapping = 0 ∧ v.mmu.srp = u.mmu.srp ∧ v.live = u.live ∧
        Agree u.mmu.mem v.mmu.mem (trees u.mmu.mem u.roots) ∧
          rest ++ trees v.mmu.mem u.roots ⊆ frames ∧
            Frames.Owned (rest ++ trees v.mmu.mem u.roots) v.mmu.frames u.roots rest := by
  obtain ⟨supplied, outside, gone⟩ := takes
  obtain ⟨frame, s, used, rest, ran, took, unchanged⟩ := @place_took u.mmu.frames chain virt
    (rootLevelFieldAddr u.mmu.srp) true writeProtected 2 owned.pool
    (fun t member => ⟨(outside t member).1, (outside t member).2.1 chain owned.pool.linked⟩) gone supplied
  obtain ⟨m, ran', done⟩ := run_of_simulates
    (fun _ => allocBelow_simulates (by decide) u.mmu.srp virt true writeProtected) mapping ran
  obtain rfl := done.frames
  have served : u.act (.allocSupervisor virt writeProtected) = some ⟨m, u.live⟩ := by
    show (Mmu.allocAt virt true writeProtected u.mmu).map _ = _
    rw [allocAt_eq, show u.mmu.rootPointer true = u.mmu.srp from rfl, ran']
    rfl
  obtain rfl := Option.some.inj (served.symm.trans acts)
  have split := took.split
  have once : (chain ++ trees u.mmu.mem u.roots).Nodup := owned.split.nodup_iff.mpr owned.distinct
  have known (f : Nat) (member : f ∈ chain ++ trees u.mmu.mem u.roots) : IsFrame f :=
    owned.valid f (owned.split.subset member)
  have agree : Agree u.mmu.mem m.mem (trees u.mmu.mem u.roots) := by
    refine agree_of_unchanged unchanged (fun b member => ?_)
      (fun f member => (known f (List.mem_append_right _ member)).aligned) fun f member again => ?_
    · rcases List.mem_append.mp member with isUsed | onWay
      · exact (known b (List.mem_append_left _ (split ▸ List.mem_append_left _ isUsed))).aligned
      · exact (outside b onWay).1
    · rcases List.mem_append.mp again with isUsed | onWay
      · exact (List.nodup_append.mp once).2.2 f (split ▸ List.mem_append_left _ isUsed) f member rfl
      · exact (outside f onWay).2.2 member
  have same : trees m.mem u.roots = trees u.mmu.mem u.roots := trees_agree agree
  have kept : rest ++ trees m.mem u.roots ⊆ chain ++ trees u.mmu.mem u.roots := by
    rw [same, split]
    exact List.append_subset.mpr ⟨fun f member => List.mem_append_left _ (List.mem_append_right _ member),
      List.subset_append_right ..⟩
  have still : (rest ++ trees m.mem u.roots).Nodup := by
    rw [same]
    rw [split, List.append_assoc] at once
    exact (List.nodup_append.mp once).2.1
  exact ⟨frame, used, rest, ran, took, done.mapping, done.srp, rfl, agree,
    fun f member => owned.split.subset (kept member),
    took.pool, List.Perm.refl _, still, fun f member => known f (kept member)⟩

theorem steady_allocSupervisor (steady : u.Steady) {virt : Nat} {writeProtected : Bool}
    (takes : u.Takes (.allocSupervisor virt writeProtected))
    (acts : u.act (.allocSupervisor virt writeProtected) = some v) : v.Steady := by
  obtain ⟨mapping, frames, chain, owned, length⟩ := steady
  obtain ⟨frame, used, rest, -, took, mapping', -, live, -, -, owned'⟩ :=
    allocSupervisor_owned mapping owned takes acts
  have same : v.roots = u.roots := congrArg (List.map rootLevelFieldAddr) live
  rw [← same] at owned'
  refine ⟨mapping', _, rest, owned', ?_⟩
  have count : v.mmu.memLayout.freeFrames + used.length = u.mmu.memLayout.freeFrames := took.count
  have split := congrArg List.length took.split
  rw [List.length_append] at split
  omega

theorem steady_store (steady : u.Steady) {mem : ByteMem} (same : u.SameFrames mem) :
    UserSpaces.Steady ⟨{ u.mmu with mem := mem }, u.live⟩ := by
  obtain ⟨mapping, frames, chain, owned, length⟩ := steady
  have linked := owned.pool.linked.congr (same.1 chain owned.pool.linked)
  refine ⟨mapping, frames, chain, ⟨⟨linked, owned.pool.enough, owned.pool.frames⟩, ?_, owned.distinct,
    owned.valid⟩, length⟩
  have trees : Frames.trees mem u.roots = Frames.trees u.mmu.mem u.roots := same.2
  have split := owned.split
  rw [show u.mmu.frames.mem = u.mmu.mem from rfl, ← trees] at split
  exact split

/-- What takes frames only keeps the counter right. -/
theorem steady_act (steady : u.Steady) {e : Event} (takes : u.Takes e) (acts : u.act e = some v) :
    v.Steady := by
  cases e with
  | request r => exact steady_serve steady takes.1 takes.2 acts
  | allocSupervisor virt writeProtected => exact steady_allocSupervisor steady takes acts
  | store mem =>
      obtain rfl := Option.some.inj acts
      exact steady_store steady takes

theorem steady_run {events : List Event} (steady : u.Steady) (run : Happen Takes u events v) :
    v.Steady := by
  induction events generalizing u with
  | nil =>
      obtain rfl := run
      exact steady
  | cons e rest ih =>
      obtain ⟨takes, w, acts, later⟩ := run
      exact ih (steady_act steady takes acts) later

/-- The start leaves no user space, and the frames of the free list. -/
theorem steady_init (boots : Boots m) (begins : Mmu.init m = some ((), m')) : Steady ⟨m', []⟩ := by
  obtain ⟨m₁, chain, ran, mapping, -, pool, length, -⟩ := init_pool boots
  obtain ⟨-, rfl⟩ := Prod.mk.inj (Option.some.inj (ran.symm.trans begins))
  exact ⟨mapping, chain, chain, ⟨pool, List.Perm.of_eq (List.append_nil chain), pool.distinct, pool.frames⟩,
    length⟩

end UserSpaces

end Steady

/-! ## Runs that do not keep it -/

def zeroed : Mmu where
  mem := fun _ => 0
  memLayout := ⟨0, 0, 0⟩
  window := fun _ => 0
  mapping := 0
  srp := 0
  urp := 0

theorem zeroed_word (a : Nat) : zeroed.mem.load32 a = 0 := by
  have byte (x : Nat) : (zeroed.mem x).toNat = 0 := rfl
  unfold ByteMem.load32
  rw [byte, byte, byte, byte]

theorem zeroed_child {level i : Nat} (table : Nat) (small : i < 128) : child zeroed.mem level table i = none :=
  child_zero (fun _ _ => zeroed_word _) small

theorem zeroed_pages : zeroed.residentPages = [] := by
  refine List.flatMap_eq_nil_iff.mpr fun i member => ?_
  have none : child zeroed.mem 3 (rootLevelFieldAddr zeroed.srp) i = none :=
    zeroed_child _ (List.mem_range.mp member)
  rw [none, Option.elim_none]

theorem zeroed_boots : Boots zeroed := by
  refine ⟨rfl, ⟨by decide, fun i small c leads => ?_⟩, ?_⟩
  · have none : child zeroed.mem 3 (rootLevelFieldAddr zeroed.srp) i = none := zeroed_child _ small
    exact nomatch none.symm.trans leads
  · rw [zeroed_pages]
    trivial

/-- All frames are free after the start. -/
theorem zeroed_init : ∃ m chain, Mmu.init zeroed = some ((), m) ∧ m.mapping = 0 ∧
    Frames.Owned chain m.frames [] chain ∧ m.memLayout.freeFrames = chain.length ∧ chain.length = 16384 := by
  obtain ⟨m, chain, ran, mapping, -, pool, length, all⟩ := init_pool zeroed_boots
  rw [zeroed_pages] at all
  exact ⟨m, chain, ran, mapping,
    ⟨pool, List.Perm.of_eq (List.append_nil chain), pool.distinct, pool.frames⟩, length, all⟩

end Mmu

end TrollOS
