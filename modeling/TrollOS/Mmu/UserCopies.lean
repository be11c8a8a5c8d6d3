import TrollOS.Mmu.Window

/-!
# Copies from and to user space

`mmu040_copy_from_userspace` and `mmu040_copy_to_userspace` go byte by byte over the
user's addresses and map the page behind them anew at each page boundary.  `frame` is the
mapping of the user's pages, and `place` the physical address of a byte.
-/

namespace TrollOS.Mmu

open TrollOS.Lib Frames Action

variable {ptestr : Mmu → Nat → Nat} {frame : Nat → Nat} {m m' : Mmu} {virt size : Nat}

/-- Where the byte at a user address is, page by page. -/
def place (frame : Nat → Nat) (virt : Nat) : Nat := frame (virt / pageSize) + virt % pageSize

def places (frame : Nat → Nat) (virt size : Nat) : List Nat :=
  (List.range size).map fun i => place frame (u32 (virt + i))

/-- The pages of `size` bytes at `virt` are resident on the frames given, and stay so whatever
is written to these bytes. -/
def Resident (ptestr : Mmu → Nat → Nat) (m : Mmu) (frame : Nat → Nat) (virt size : Nat) : Prop :=
  ∀ m' : Mmu, (∀ a, a ∉ places frame virt size → m'.mem a = m.mem a) → m'.srp = m.srp → m'.urp = m.urp →
    ∀ i < size, ptestr m' (u32 (virt + i)) / pageSize * pageSize = frame (u32 (virt + i) / pageSize)

/-- Everything but the memory and the window from `depth` on is the same. -/
structure Restored (depth : Nat) (m m' : Mmu) : Prop where
  memLayout : m'.memLayout = m.memLayout
  srp : m'.srp = m.srp
  urp : m'.urp = m.urp
  mapping : m'.mapping = m.mapping
  window : ∀ slot, slot < depth → m'.window slot = m.window slot

theorem map_places {α : Type} (f : Nat → α) (frame : Nat → Nat) (virt size : Nat) :
    (places frame virt size).map f = (List.range size).map fun i => f (place frame (u32 (virt + i))) := by
  unfold places
  rw [List.map_map]
  rfl

theorem places_zero (frame : Nat → Nat) (virt : Nat) : places frame virt 0 = [] := rfl

theorem places_succ (small : virt < 4294967296) (size : Nat) :
    places frame virt (size + 1) = place frame virt :: places frame (u32 (virt + 1)) size := by
  have next (i : Nat) : u32 (virt + (i + 1)) = u32 (u32 (virt + 1) + i) := by
    unfold u32
    omega
  unfold places
  rw [List.range_succ_eq_map, List.map_cons, List.map_map, Nat.add_zero, u32_eq small]
  congr 1
  exact List.map_congr_left fun i _ => congrArg (place frame) (next i)

namespace Resident

/-- The first page. -/
theorem here (resident : Resident ptestr m frame virt (size + 1)) (small : virt < 4294967296)
    (mem : ∀ a, a ∉ places frame virt (size + 1) → m'.mem a = m.mem a) (srp : m'.srp = m.srp)
    (urp : m'.urp = m.urp) : ptestr m' virt / pageSize * pageSize = frame (virt / pageSize) := by
  have first := resident m' mem srp urp 0 (Nat.succ_pos size)
  rwa [Nat.add_zero, u32_eq small] at first

/-- The rest of the bytes, when the first one has been written. -/
theorem step (resident : Resident ptestr m frame virt (size + 1)) (small : virt < 4294967296)
    (mem : ∀ a, a ≠ place frame virt → m'.mem a = m.mem a) (srp : m'.srp = m.srp)
    (urp : m'.urp = m.urp) : Resident ptestr m' frame (u32 (virt + 1)) size := by
  intro other same srp' urp' i below
  have next : u32 (u32 (virt + 1) + i) = u32 (virt + (i + 1)) := by
    unfold u32
    omega
  rw [next]
  refine resident other (fun a outside => ?_) (srp'.trans srp) (urp'.trans urp) (i + 1) (Nat.succ_lt_succ below)
  rw [places_succ small, List.mem_cons, not_or] at outside
  rw [same a outside.2, mem a outside.1]

/-- Writing to the bytes themselves leaves their pages resident. -/
theorem agree (resident : Resident ptestr m frame virt size)
    (mem : ∀ a, a ∉ places frame virt size → m'.mem a = m.mem a) (srp : m'.srp = m.srp)
    (urp : m'.urp = m.urp) : Resident ptestr m' frame virt size := fun other same srp' urp' =>
  resident other (fun a outside => (same a outside).trans (mem a outside)) (srp'.trans srp) (urp'.trans urp)

end Resident

def pushed (m : Mmu) (base : Nat) : Mmu :=
  { m with
    window := fun slot => if slot = m.mapping then base else m.window slot
    mapping := m.mapping + 1 }

def popped (m : Mmu) : Mmu := { m with mapping := m.mapping - 1 }

/-- Looking up a resident page and mapping it. -/
theorem map_page {α : Type} (translated : ptestr m virt / pageSize * pageSize = frame (virt / pageSize))
    (room : m.mapping < mapperPages) (next : Nat → Action α) :
    (do let phys ← getPhysical ptestr virt
        let page ← mappingPush phys
        next (page + phys % pageSize) : Action α) m =
      next (m.mapping * pageSize + virt % pageSize) (m.pushed (frame (virt / pageSize))) := by
  have aligned : frame (virt / pageSize) % pageSize = 0 := by
    rw [← translated]
    exact Nat.mul_mod_left _ _
  have offset : (frame (virt / pageSize) + virt % pageSize) % pageSize = virt % pageSize := by
    rw [Nat.add_mod, aligned, Nat.zero_add, Nat.mod_mod, Nat.mod_mod]
  have base : pageLevelFieldAddr (pageLevelAddrField (frame (virt / pageSize) + virt % pageSize)) =
      frame (virt / pageSize) := by
    have whole := base_add_mod (frame (virt / pageSize) + virt % pageSize)
    rw [offset] at whole
    exact Nat.add_right_cancel whole
  have looked : getPhysical ptestr virt m = some (frame (virt / pageSize) + virt % pageSize, m) := by
    unfold getPhysical
    rw [translated]
  have push : mappingPush (frame (virt / pageSize) + virt % pageSize) m =
      some (m.mapping * pageSize, m.pushed (frame (virt / pageSize))) := by
    unfold mappingPush pushed
    rw [if_neg (Nat.not_le.mpr room), base]
  rw [bind_of_some looked, bind_of_some push, offset]

/-! ## The next byte -/

section Next

variable {depth : Nat}

theorem translate_slot (m : Mmu) (slot : Nat) {offset : Nat} (inPage : offset < pageSize) :
    m.translate (slot * pageSize + offset) = m.window slot + offset := by
  unfold Mmu.translate
  rw [Nat.mul_comm, Nat.mul_add_div (by decide), Nat.mul_add_mod, Nat.div_eq_of_lt inPage,
    Nat.mod_eq_of_lt inPage, Nat.add_zero]

/-- The pointer into the window stands for the user's byte. -/
theorem translate_place (window : m.window depth = frame (virt / pageSize)) :
    m.translate (depth * pageSize + virt % pageSize) = place frame virt := by
  rw [translate_slot m depth (Nat.mod_lt _ (by decide)), window]
  rfl

/-- Within a page the pointer moves with the address. -/
theorem next_inPage (small : virt < 4294967296) (inside : u32 (virt + 1) % pageSize ≠ 0) :
    u32 (virt + 1) / pageSize = virt / pageSize ∧
      depth * pageSize + virt % pageSize + 1 = depth * pageSize + u32 (virt + 1) % pageSize := by
  unfold u32 pageSize at inside ⊢
  constructor
  · omega
  · omega

namespace Restored

theorem refl (depth : Nat) (m : Mmu) : Restored depth m m := ⟨rfl, rfl, rfl, rfl, fun _ _ => rfl⟩

theorem trans {m₁ m₂ m₃ : Mmu} (first : Restored depth m₁ m₂) (second : Restored depth m₂ m₃) :
    Restored depth m₁ m₃ :=
  ⟨second.memLayout.trans first.memLayout, second.srp.trans first.srp, second.urp.trans first.urp,
    second.mapping.trans first.mapping, fun slot below =>
      (second.window slot below).trans (first.window slot below)⟩

/-- The top page replaced by another one. -/
theorem repaged (top : m.mapping = depth + 1) (base : Nat) : Restored depth m (m.popped.pushed base) := by
  refine ⟨rfl, rfl, rfl, ?_, fun slot below => if_neg ?_⟩
  · change m.mapping - 1 + 1 = m.mapping
    omega
  · change slot ≠ m.mapping - 1
    omega

end Restored

theorem mappingPop_ran (m : Mmu) : mappingPop m = some ((), m.popped) := rfl

theorem popped_mapping (top : m.mapping = depth + 1) : m.popped.mapping = depth :=
  congrArg (· - 1) top

theorem pushed_top (top : m.mapping = depth + 1) (base : Nat) :
    (m.popped.pushed base).mapping = depth + 1 ∧ (m.popped.pushed base).window depth = base :=
  ⟨congrArg (· + 1) (popped_mapping top), if_pos (popped_mapping top).symm⟩

end Next

/-! ## From user space -/

/-- The loop puts out the bytes at the places left. -/
theorem copyFromLoop_ran {depth : Nat} (room : depth < mapperPages) (left : Nat)
    (top : m.mapping = depth + 1) (window : m.window depth = frame (virt / pageSize))
    (small : virt < 4294967296) (resident : Resident ptestr m frame virt (left + 1)) :
    ∃ m', copyFromLoop ptestr (left + 1) virt (depth * pageSize + virt % pageSize) m =
        some ((places frame virt (left + 1)).map m.mem, m') ∧ m'.mem = m.mem ∧ Restored depth m m' := by
  induction left generalizing virt m with
  | zero =>
      refine ⟨m, ?_, rfl, .refl depth m⟩
      rw [places_succ small, places_zero, List.map_cons, ← translate_place window]
      rfl
  | succ left ih =>
      have read : read8 (depth * pageSize + virt % pageSize) m = some (m.mem (place frame virt), m) := by
        unfold read8
        rw [translate_place window]
      unfold copyFromLoop
      rw [bind_of_some read, places_succ small, List.map_cons]
      rw [if_neg (Nat.succ_ne_zero left)]
      by_cases boundary : u32 (virt + 1) % pageSize = 0
      · rw [if_pos boundary]
        have below := popped_mapping top
        have rest : Resident ptestr m.popped frame (u32 (virt + 1)) (left + 1) :=
          resident.step small (fun _ _ => rfl) rfl rfl
        have translated := rest.here (u32_lt _) (fun _ _ => rfl) rfl rfl
        have mapped := map_page translated (below.symm ▸ room) fun address =>
          copyFromLoop ptestr (left + 1) (u32 (virt + 1)) address >>= fun rest =>
            pure (m.mem (place frame virt) :: rest)
        obtain ⟨above, shown⟩ := pushed_top top (frame (u32 (virt + 1) / pageSize))
        obtain ⟨m', ran, mem, restored⟩ := ih above shown (u32_lt _) rest
        rw [below] at mapped
        rw [bind_of_some (mappingPop_ran m), mapped, bind_of_some ran]
        exact ⟨m', rfl, mem, (Restored.repaged top _).trans restored⟩
      · rw [if_neg boundary]
        obtain ⟨samePage, pointer⟩ := @next_inPage virt depth small boundary
        rw [pointer]
        obtain ⟨m', ran, mem, restored⟩ := ih top (window.trans (congrArg frame samePage.symm)) (u32_lt _)
          (resident.step small (fun _ _ => rfl) rfl rfl)
        rw [bind_of_some ran]
        exact ⟨m', rfl, mem, restored⟩

/-- The first page pushed, and popped again at the end. -/
theorem Restored.around {m₂ : Mmu} {base : Nat} (inner : Restored m.mapping (m.pushed base) m₂) :
    Restored m.mapping m m₂.popped := by
  refine ⟨inner.memLayout, inner.srp, inner.urp, congrArg (· - 1) inner.mapping, fun slot below => ?_⟩
  rw [← show (m.pushed base).window slot = m.window slot from if_neg (Nat.ne_of_lt below)]
  exact inner.window slot below

theorem copyFromUserspace_ran (room : m.mapping < mapperPages) (small : virt < 4294967296)
    (resident : Resident ptestr m frame virt size) :
    ∃ m', copyFromUserspace ptestr virt size m = some ((places frame virt size).map m.mem, m') ∧
      m'.mem = m.mem ∧ Restored m.mapping m m' := by
  cases size with
  | zero => exact ⟨m, rfl, rfl, .refl _ m⟩
  | succ left =>
      have translated := resident.here small (fun _ _ => rfl) rfl rfl
      have mapped := map_page translated room fun address =>
        copyFromLoop ptestr (left + 1) virt address >>= fun bytes => mappingPop >>= fun _ => pure bytes
      obtain ⟨m₂, ran, mem, restored⟩ := @copyFromLoop_ran ptestr frame (m.pushed (frame (virt / pageSize)))
        virt m.mapping room left rfl (if_pos rfl) small (resident.agree (fun _ _ => rfl) rfl rfl)
      unfold copyFromUserspace
      rw [if_neg (Nat.succ_ne_zero left), mapped, bind_of_some ran, bind_of_some (mappingPop_ran m₂)]
      exact ⟨m₂.popped, rfl, mem, restored.around⟩

/-! ## To user space -/

/-- Bytes stored one after the other at their places. -/
def stored (frame : Nat → Nat) : List UInt8 → Nat → ByteMem → ByteMem
  | [], _, mem => mem
  | b :: rest, virt, mem =>
      stored frame rest (u32 (virt + 1)) fun a => if a = place frame virt then b else mem a

theorem stored_outside (small : virt < 4294967296) {bytes : List UInt8} {a : Nat}
    (outside : a ∉ places frame virt bytes.length) (mem : ByteMem) :
    stored frame bytes virt mem a = mem a := by
  induction bytes generalizing virt mem with
  | nil => rfl
  | cons b rest ih =>
      rw [List.length_cons, places_succ small, List.mem_cons, not_or] at outside
      unfold stored
      rw [ih (u32_lt _) outside.2]
      exact if_neg outside.1

/-- A byte that no later one is stored over. -/
theorem stored_at (small : virt < 4294967296) {bytes : List UInt8} {i : Nat} (inBytes : i < bytes.length)
    (last : ∀ j, i < j → j < bytes.length → place frame (u32 (virt + j)) ≠ place frame (u32 (virt + i)))
    (mem : ByteMem) : stored frame bytes virt mem (place frame (u32 (virt + i))) = bytes[i] := by
  induction bytes generalizing virt i mem with
  | nil => exact absurd inBytes (Nat.not_lt_zero i)
  | cons b rest ih =>
      have next (j : Nat) : u32 (virt + (j + 1)) = u32 (u32 (virt + 1) + j) := by
        unfold u32
        omega
      unfold stored
      cases i with
      | zero =>
          have first : u32 (virt + 0) = virt := u32_eq small
          rw [first] at last ⊢
          rw [stored_outside (u32_lt _)]
          · exact if_pos rfl
          · intro member
            obtain ⟨j, inRest, same⟩ := List.mem_map.mp member
            refine last (j + 1) (Nat.succ_pos j) (Nat.succ_lt_succ (List.mem_range.mp inRest)) ?_
            rw [next]
            exact same
      | succ i =>
          rw [next i]
          refine ih (u32_lt _) (Nat.lt_of_succ_lt_succ inBytes) (fun j after inRest => ?_) _
          rw [← next, ← next]
          exact last (j + 1) (Nat.succ_lt_succ after) (Nat.succ_lt_succ inRest)

/-- The loop stores the bytes left. -/
theorem copyToLoop_ran {depth : Nat} (room : depth < mapperPages) (b : UInt8) (rest : List UInt8)
    (top : m.mapping = depth + 1) (window : m.window depth = frame (virt / pageSize))
    (small : virt < 4294967296) (resident : Resident ptestr m frame virt (b :: rest).length) :
    ∃ m', copyToLoop ptestr (b :: rest) virt (depth * pageSize + virt % pageSize) m = some ((), m') ∧
      m'.mem = stored frame (b :: rest) virt m.mem ∧ Restored depth m m' := by
  induction rest generalizing virt m b with
  | nil =>
      refine ⟨{ m with mem := fun a => if a = place frame virt then b else m.mem a }, ?_, rfl,
        ⟨rfl, rfl, rfl, rfl, fun _ _ => rfl⟩⟩
      rw [← translate_place window]
      rfl
  | cons next rest ih =>
      let m₁ : Mmu := { m with mem := fun a => if a = place frame virt then b else m.mem a }
      have wrote : write8 (depth * pageSize + virt % pageSize) b m = some ((), m₁) := by
        unfold write8
        rw [translate_place window]
      have left : Resident ptestr m₁ frame (u32 (virt + 1)) (next :: rest).length :=
        resident.step small (fun a other => if_neg other) rfl rfl
      have written : Restored depth m m₁ := ⟨rfl, rfl, rfl, rfl, fun _ _ => rfl⟩
      unfold copyToLoop stored
      rw [bind_of_some wrote, List.isEmpty_cons, if_neg Bool.false_ne_true]
      by_cases boundary : u32 (virt + 1) % pageSize = 0
      · rw [if_pos boundary]
        have below : m₁.popped.mapping = depth := popped_mapping top
        have rest' : Resident ptestr m₁.popped frame (u32 (virt + 1)) (next :: rest).length :=
          left.agree (fun _ _ => rfl) rfl rfl
        have translated := rest'.here (u32_lt _) (fun _ _ => rfl) rfl rfl
        have mapped := map_page translated (below.symm ▸ room) fun address =>
          copyToLoop ptestr (next :: rest) (u32 (virt + 1)) address
        obtain ⟨above, shown⟩ := @pushed_top m₁ depth top (frame (u32 (virt + 1) / pageSize))
        obtain ⟨m', ran, mem, restored⟩ := ih next above shown (u32_lt _) rest'
        rw [below] at mapped
        rw [bind_of_some (mappingPop_ran m₁), mapped]
        exact ⟨m', ran, mem, written.trans ((@Restored.repaged m₁ depth top _).trans restored)⟩
      · rw [if_neg boundary]
        obtain ⟨samePage, pointer⟩ := @next_inPage virt depth small boundary
        rw [pointer]
        obtain ⟨m', ran, mem, restored⟩ := @ih m₁ (u32 (virt + 1)) next top
          (window.trans (congrArg frame samePage.symm)) (u32_lt _) left
        exact ⟨m', ran, mem, written.trans restored⟩

theorem copyToUserspace_ran (room : m.mapping < mapperPages) (small : virt < 4294967296)
    {bytes : List UInt8} (resident : Resident ptestr m frame virt bytes.length) :
    ∃ m', copyToUserspace ptestr virt bytes m = some ((), m') ∧
      m'.mem = stored frame bytes virt m.mem ∧ Restored m.mapping m m' := by
  cases bytes with
  | nil => exact ⟨m, rfl, rfl, .refl _ m⟩
  | cons b rest =>
      have translated := resident.here small (fun _ _ => rfl) rfl rfl
      have mapped := map_page translated room fun address =>
        copyToLoop ptestr (b :: rest) virt address >>= fun _ => mappingPop
      obtain ⟨m₂, ran, mem, restored⟩ := @copyToLoop_ran ptestr frame (m.pushed (frame (virt / pageSize)))
        virt m.mapping room b rest rfl (if_pos rfl) small (resident.agree (fun _ _ => rfl) rfl rfl)
      unfold copyToUserspace
      rw [List.isEmpty_cons, if_neg Bool.false_ne_true, mapped, bind_of_some ran]
      exact ⟨m₂.popped, rfl, mem, restored.around⟩

/-- Different pages of the bytes are on different frames. -/
def DistinctFrames (frame : Nat → Nat) (virt size : Nat) : Prop :=
  ∀ i j, i < size → j < size →
    frame (u32 (virt + i) / pageSize) = frame (u32 (virt + j) / pageSize) →
      u32 (virt + i) / pageSize = u32 (virt + j) / pageSize

/-- On different frames every byte has its own place. -/
theorem places_distinct (resident : Resident ptestr m frame virt size)
    (distinct : DistinctFrames frame virt size) (sizeSmall : size ≤ 4294967296) {i j : Nat}
    (first : i < size) (second : j < size)
    (same : place frame (u32 (virt + i)) = place frame (u32 (virt + j))) : i = j := by
  have alignedFirst := resident m (fun _ _ => rfl) rfl rfl i first
  have alignedSecond := resident m (fun _ _ => rfl) rfl rfl j second
  have pages := distinct i j first second
  unfold place at same
  generalize frame (u32 (virt + i) / pageSize) = a at alignedFirst pages same
  generalize frame (u32 (virt + j) / pageSize) = b at alignedSecond pages same
  have frames : a = b := by
    unfold pageSize at alignedFirst alignedSecond same
    omega
  have page := pages frames
  unfold pageSize at page same
  unfold u32 at page same
  omega

/-- A copy from user space gives the bytes at the places of the addresses and changes nothing,
a copy to user space changes exactly the bytes at these places, the last one of a place
counting, and when different pages are on different frames the bytes come back. -/
theorem user_copies_exact (room : m.mapping < mapperPages) (small : virt < 4294967296) :
    (∀ size, Resident ptestr m frame virt size →
      ∃ m', copyFromUserspace ptestr virt size m =
          some ((List.range size).map fun i => m.mem (place frame (u32 (virt + i))), m') ∧
        m'.mem = m.mem ∧ Restored m.mapping m m') ∧
      ∀ bytes : List UInt8, Resident ptestr m frame virt bytes.length →
        ∃ m', copyToUserspace ptestr virt bytes m = some ((), m') ∧ Restored m.mapping m m' ∧
          (∀ a, a ∉ places frame virt bytes.length → m'.mem a = m.mem a) ∧
          (∀ i, ∀ inBytes : i < bytes.length,
            (∀ j, i < j → j < bytes.length → place frame (u32 (virt + j)) ≠ place frame (u32 (virt + i))) →
              m'.mem (place frame (u32 (virt + i))) = bytes[i]) ∧
          (DistinctFrames frame virt bytes.length → bytes.length ≤ 4294967296 →
            ∃ m'', copyFromUserspace ptestr virt bytes.length m' = some (bytes, m'')) := by
  constructor
  · intro size resident
    obtain ⟨m', ran, mem, restored⟩ := copyFromUserspace_ran room small resident
    rw [map_places] at ran
    exact ⟨m', ran, mem, restored⟩
  · intro bytes resident
    obtain ⟨m', ran, mem, restored⟩ := copyToUserspace_ran room small resident
    have outside : ∀ a, a ∉ places frame virt bytes.length → m'.mem a = m.mem a := fun a off => by
      rw [mem]
      exact stored_outside small off m.mem
    refine ⟨m', ran, restored, outside, fun i inBytes last => ?_, fun distinct few => ?_⟩
    · rw [mem]
      exact stored_at small inBytes last m.mem
    · have room' : m'.mapping < mapperPages := by rwa [restored.mapping]
      obtain ⟨m'', back, -, -⟩ := copyFromUserspace_ran room' small
        (resident.agree outside restored.srp restored.urp)
      refine ⟨m'', back.trans (congrArg (fun copied => some (copied, m'')) ?_)⟩
      rw [map_places]
      refine List.ext_getElem (by rw [List.length_map, List.length_range]) fun i _ inBytes => ?_
      have own : ∀ j, i < j → j < bytes.length →
          place frame (u32 (virt + j)) ≠ place frame (u32 (virt + i)) := fun j after within same =>
        Nat.ne_of_gt after (places_distinct resident distinct few within inBytes same)
      have kept := stored_at small inBytes own m.mem
      rw [← mem] at kept
      rw [← kept, List.getElem_map, List.getElem_range]

def swappedPages (virt : Nat) : Nat := if virt / pageSize = 1 then 0x9000 else 0x5000

def emptyWindow : Mmu := ⟨fun _ => 0, ⟨0, 0, 0⟩, fun _ => 0, 0, 0, 0⟩

theorem swappedPages_resident :
    Resident (fun _ => swappedPages) emptyWindow (fun n => swappedPages (n * pageSize)) 8191 2 := by
  intro m' _ _ _ i below
  dsimp only
  match i with
  | 0 => decide
  | 1 => decide
  | i + 2 => omega

theorem user_copies_exact_meeting :
    ∃ m', copyToUserspace (fun _ => swappedPages) 8191 [7, 8] emptyWindow = some ((), m') ∧
      ∃ m'', copyFromUserspace (fun _ => swappedPages) 8191 2 m' = some ([7, 8], m'') := by
  obtain ⟨-, copies⟩ := @user_copies_exact (fun _ => swappedPages) (fun n => swappedPages (n * pageSize))
    emptyWindow 8191 (by decide) (by decide)
  obtain ⟨m', ran, -, -, -, back⟩ := copies [7, 8] swappedPages_resident
  refine ⟨m', ran, back (fun i j first second => ?_) (by decide)⟩
  match i, j with
  | 0, 0 => exact fun _ => rfl
  | 0, 1 => decide
  | 1, 0 => decide
  | 1, 1 => exact fun _ => rfl
  | i + 2, _ => exact absurd first (by simp)
  | _, j + 2 => exact absurd second (by simp)

end TrollOS.Mmu
