import TrollOS.Mmu.Isolation

/-!
# A user tree as a finite map

A tree is a map from the pages of the address space to page frames with their
flags and contents.  `mmu040_alloc_at` updates this map at one page.
-/

namespace TrollOS.Frames

open TrollOS.Lib Mmu
open Function (update)

def pageOf (virt : Nat) : Fin (2 ^ 20) := ⟨virt / pageSize % 2 ^ 20, Nat.mod_lt _ (by decide)⟩

/-- What a mapped page shows: its frame, its flags and its bytes. -/
structure MappedPage where
  frame : Nat
  supervisor : Nat
  writeProtected : Nat
  bytes : Fin pageSize → UInt8

def mappedPage (mem : ByteMem) (w : Nat) : MappedPage :=
  ⟨address 1 w, supervisorBit w, writeProtectedBit w, fun x => mem (address 1 w + x)⟩

/-- The pages the hardware walk finds below a root table. -/
def pageMap (mem : ByteMem) (root : Nat) (page : Fin (2 ^ 20)) : Option MappedPage :=
  (lookup mem 3 root (page * pageSize)).map (mappedPage mem)

section Pages

variable {mem mem' : ByteMem} {root v virt w f : Nat} {supervisor writeProtected : Bool}

/-- Two addresses take the same way through the tables exactly when they are in one page. -/
theorem samePath_iff (v virt : Nat) : SamePath 3 v virt ↔ pageOf v = pageOf virt := by
  have parts : pageOf v = pageOf virt ↔ pageTableIndex v = pageTableIndex virt ∧
      pointerTableIndex v = pointerTableIndex virt ∧ rootTableIndex v = rootTableIndex virt := by
    rw [Fin.ext_iff]
    show v / pageSize % 2 ^ 20 = virt / pageSize % 2 ^ 20 ↔ _
    unfold pageTableIndex pointerTableIndex rootTableIndex pageSize
    omega
  rw [parts]
  constructor
  · exact fun path => ⟨path 0 (by decide), path 1 (by decide), path 2 (by decide)⟩
  · rintro ⟨page, pointer, root⟩ l small
    match l, small with
    | 0, _ => exact page
    | 1, _ => exact pointer
    | 2, _ => exact root

theorem pageOf_page (page : Fin (2 ^ 20)) : pageOf (page * pageSize) = page := by
  rw [Fin.ext_iff]
  show (page : Nat) * pageSize / pageSize % 2 ^ 20 = page
  rw [Nat.mul_div_cancel _ (by decide)]
  exact Nat.mod_eq_of_lt page.isLt

/-- A walk depends on the way through the tables only. -/
theorem lookup_samePath {level table : Nat} (path : SamePath level v virt) :
    lookup mem level table v = lookup mem level table virt := by
  induction level generalizing table with
  | zero => rfl
  | succ level ih =>
      have top := path level (Nat.lt_succ_self level)
      have deeper : SamePath level v virt := fun l small => path l (Nat.lt_succ_of_lt small)
      cases leads : child mem (level + 1) table (index (level + 1) virt) with
      | none =>
          cases level with
          | zero => rw [lookup_no_page leads, lookup_no_page (top ▸ leads)]
          | succ level => rw [lookup_none leads, lookup_none (top ▸ leads)]
      | some c =>
          cases level with
          | zero => rw [lookup_page leads, lookup_page (top ▸ leads), top]
          | succ level =>
              rw [lookup_child leads, lookup_child (top ▸ leads)]
              exact ih deeper

/-- The walk at any address of a page finds the page. -/
theorem pageMap_lookup (mem : ByteMem) (root v : Nat) :
    pageMap mem root (pageOf v) = (lookup mem 3 root v).map (mappedPage mem) := by
  unfold pageMap
  rw [lookup_samePath ((samePath_iff _ v).mpr (pageOf_page (pageOf v)))]

theorem field_placed (w f : Nat) (supervisor writeProtected : Bool) :
    supervisorBit (placed w f supervisor writeProtected) = supervisor.toNat ∧
      writeProtectedBit (placed w f supervisor writeProtected) = writeProtected.toNat := by
  unfold placed setDescriptorType setWriteProtected setCacheCopyBack supervisorBit writeProtectedBit
  constructor
  · rw [field_setField_above _ _ 1 (by decide), field_setField_above _ _ 1 (by decide),
      field_setField_above _ _ 1 (by decide)]
    unfold setSupervisor
    rw [field_setField]
    cases supervisor with
    | true => rfl
    | false => rfl
  · rw [field_setField_above _ _ 1 (by decide), field_setField]
    cases writeProtected with
    | true => rfl
    | false => rfl

/-- The same view of a page is the same page of the map. -/
theorem pageMap_view (view : SameView mem mem' 3 root v) :
    pageMap mem' root (pageOf v) = pageMap mem root (pageOf v) := by
  rw [pageMap_lookup, pageMap_lookup, view.lookup]
  cases found : lookup mem 3 root v with
  | none => rfl
  | some w =>
      have bytes : (fun x : Fin pageSize => mem' (address 1 w + x)) =
          fun x : Fin pageSize => mem (address 1 w + x) :=
        funext fun x => view.bytes w found x x.isLt
      show some (mappedPage mem' w) = some (mappedPage mem w)
      unfold mappedPage
      rw [bytes]

/-- A placement updates the map at one page. -/
theorem pageMap_placement {s s' : Frames} {chain used rest : List Nat}
    (placement : Placement s s' virt supervisor writeProtected 3 root f chain used rest) :
    pageMap s'.mem root = update (pageMap s.mem root) (pageOf virt)
      (some ⟨f, supervisor.toNat, writeProtected.toNat, fun _ => 0⟩) := by
  funext page
  obtain ⟨w, here⟩ := placement.here
  by_cases same : page = pageOf virt
  · obtain ⟨isSupervisor, isProtected⟩ := field_placed w f supervisor writeProtected
    have bytes : (fun x : Fin pageSize => s'.mem (f + x)) = fun _ => 0 :=
      funext fun x => placement.empty x x.isLt
    rw [same, Function.update_self, pageMap_lookup, here]
    show some (mappedPage s'.mem _) = _
    unfold mappedPage
    rw [address_placed placement.frame, isSupervisor, isProtected, bytes]
  · have apart : ¬ SamePath 3 (page * pageSize) virt := fun path =>
      same ((pageOf_page page).symm.trans ((samePath_iff _ virt).mp path))
    rw [Function.update_of_ne same, ← pageOf_page page]
    exact pageMap_view (placement.elsewhere _ apart)

end Pages

end TrollOS.Frames

namespace TrollOS.Mmu

open TrollOS.Lib Frames
open Function (update)

/-- `mmu040_alloc_at` updates the map of its tree at the page of the address, with an
empty frame and the flags asked for. -/
theorem UserSpaces.allocAt_updates {frames : List Nat} {u : UserSpaces} (owned : u.Owned frames)
    {virt : Nat} {supervisor : Bool} (current : u.mmu.rootPointer supervisor ∈ u.live)
    (supplied : Supplied u.mmu (u.mmu.rootPointer supervisor) virt) (writeProtected : Bool) :
    ∃ f m, Mmu.allocAt virt supervisor writeProtected u.mmu = some (f, m) ∧
      (∀ v, pageMap m.mem (rootLevelFieldAddr (u.mmu.rootPointer supervisor)) (pageOf v) =
        (lookup m.mem 3 (rootLevelFieldAddr (u.mmu.rootPointer supervisor)) v).map
          (mappedPage m.mem)) ∧
        pageMap m.mem (rootLevelFieldAddr (u.mmu.rootPointer supervisor)) =
          update (pageMap u.mmu.mem (rootLevelFieldAddr (u.mmu.rootPointer supervisor))) (pageOf virt)
            (some ⟨f, supervisor.toNat, writeProtected.toNat, fun _ => 0⟩) ∧
          ∀ v, pageOf v ≠ pageOf virt →
            SameView u.mmu.mem m.mem 3 (rootLevelFieldAddr (u.mmu.rootPointer supervisor)) v := by
  obtain ⟨chain, roles⟩ := owned.roles
  obtain ⟨f, m, used, rest, ran, -, placement, -, -⟩ := allocAt_owned owned.mapping supervisor
    writeProtected virt rfl roles (mem_roots current) supplied
  have updated := pageMap_placement placement
  exact ⟨f, m, ran, pageMap_lookup m.mem _, updated, fun v other =>
    placement.elsewhere v fun path => other ((samePath_iff v virt).mp path)⟩

theorem UserSpaces.allocAt_updates_page : ∃ (m m' : Mmu) (f : Nat),
    Mmu.allocAt 0x1000 false true m = some (f, m') ∧
      pageMap m'.mem (rootLevelFieldAddr m.urp) =
        update (pageMap m.mem (rootLevelFieldAddr m.urp)) (pageOf 0x1000) (some ⟨f, 0, 1, fun _ => 0⟩) := by
  obtain ⟨m, -, owned, current, supplied⟩ := fourFrames_space
  obtain ⟨f, m', ran, -, updated, -⟩ := @UserSpaces.allocAt_updates (frameList 4) ⟨m, [4194304]⟩ owned
    0x1000 false current supplied true
  exact ⟨m, m', f, ran, updated⟩

end TrollOS.Mmu
