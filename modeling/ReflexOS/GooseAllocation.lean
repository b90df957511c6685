import ReflexOS.GooseFabric
import ReflexOS.Runs

set_option autoImplicit false

/-!
# Allocation on the fabric

What an allocation does to the coordinate index, and when one that fails leaves every
table as it was.
-/
namespace ReflexOS.Goose
open VmTernary LinearProbing Runs

/-- The cell slots in use. -/
def liveSlots (F : Fabric) : Set ℕ := { v | v < F.cellCount }

structure FabricSound (F : Fabric) : Prop where
  stable : F.latticeStable = true
  count_le : F.cellCount ≤ fabricMaxCells
  capacity : F.registry.capacity = fabricMaxCells
  indexed : LatticeIndexes latticeBuckets F.lattice F.cells (liveSlots F)

/-- No live cell holds the coordinate. -/
def CoordFree (F : Fabric) (coord : Tryte9) : Prop :=
  ∀ v < F.cellCount, (F.cells v).coord ≠ coord

section Lookup

variable {F : Fabric} (h : FabricSound F)
include h

theorem FabricSound.count_lt : F.cellCount < latticeBuckets :=
  lt_of_le_of_lt h.count_le (by decide)

theorem FabricSound.getCell_iff (coord : Tryte9) (v : ℕ) :
    getCellByCoord F coord = some v ↔ v < F.cellCount ∧ (F.cells v).coord = coord := by
  rw [getCellByCoord, if_pos h.stable]
  exact h.indexed.find_iff (fun _ hv => hv) h.count_lt v

theorem FabricSound.getCell_none_iff (coord : Tryte9) :
    getCellByCoord F coord = none ↔ CoordFree F coord := by
  rw [getCellByCoord, if_pos h.stable]
  exact h.indexed.find_none_iff (fun _ hv => hv) h.count_lt

theorem FabricSound.coord_inj {v w : ℕ} (hv : v < F.cellCount) (hw : w < F.cellCount)
    (hc : (F.cells v).coord = (F.cells w).coord) : v = w := h.indexed.distinct v hv w hw hc

end Lookup

section Register

variable (atlas : Atlas) (reg : Registry) (name : CName) (coord : Tryte9) (sys : Bool)

/-- When `goonies_register` accepts a name, whatever the registry holds. -/
def RegisterAccepts (count : ℕ) : Prop :=
  count < fabricMaxCells ∧ 3 ≤ name.length ∧ name.length < registryNameMax ∧
    (isProtected atlas name = true → sys = true)

theorem registrySetCoord_capacity (idx : ℕ) :
    (registrySetCoord reg idx coord).capacity = reg.capacity := by
  unfold registrySetCoord
  split
  · rfl
  split <;> rfl

theorem gooniesRegister_capacity :
    (gooniesRegister atlas reg name coord sys).2.capacity = reg.capacity := by
  unfold gooniesRegister
  split
  · rfl
  split
  · rfl
  split
  · split
    · rfl
    · exact registrySetCoord_capacity _ _ _
  · split
    · rfl
    unfold registryAdd
    split
    · rfl
    next hadd =>
      split at hadd
      · cases hadd
      split at hadd <;> cases hadd
      rfl

theorem registryRemoveCoord_capacity :
    (registryRemoveCoord reg coord).2.capacity = reg.capacity := by
  unfold registryRemoveCoord
  split
  · rfl
  split
  · rfl
  · dsimp only
    split <;> rfl

theorem gooniesRegister_ok_iff (hc : reg.capacity = fabricMaxCells) :
    (gooniesRegister atlas reg name coord sys).1 = Err.ok ↔
      RegisterAccepts atlas name sys reg.count := by
  have hadd : reg.count < fabricMaxCells → name.length < registryNameMax →
      ∃ added, registryAdd reg name coord = some added := by
    intro hlt hlen
    exact ⟨_, by rw [registryAdd, if_neg (by omega), if_neg (by omega)]⟩
  unfold gooniesRegister RegisterAccepts
  split
  next hfull =>
    have : ¬ reg.count < fabricMaxCells := by omega
    simp [this, Err.noMem, Err.ok]
  next hroom =>
    split
    next hlen =>
      have : ¬ (3 ≤ name.length ∧ name.length < registryNameMax) := by omega
      constructor
      · exact fun he => absurd he (by simp [Err.invalidArg, Err.ok])
      · exact fun hacc => absurd ⟨hacc.2.1, hacc.2.2.1⟩ this
    next hlen =>
      obtain ⟨added, hadd⟩ := hadd (by omega) (by omega)
      have hbounds : reg.count < fabricMaxCells ∧ 3 ≤ name.length ∧
          name.length < registryNameMax := by omega
      cases isProtected atlas name <;> cases sys <;>
        cases registryFindName reg name <;>
          simp [hadd, hbounds, Err.invalidState, Err.notSupported, Err.ok]

theorem gooniesRegister_fail (h : (gooniesRegister atlas reg name coord sys).1 ≠ Err.ok) :
    (gooniesRegister atlas reg name coord sys).2 = reg := by
  unfold gooniesRegister at h ⊢
  split
  · rfl
  split
  · rfl
  split
  · split
    · rfl
    · simp_all
  · split
    · rfl
    split
    · rfl
    · simp_all

theorem registryRemoveCoord_count (h : (registryFindCoord reg coord).isSome = true) :
    (registryRemoveCoord reg coord).2.count = reg.count - 1 := by
  unfold registryRemoveCoord
  split
  next h0 => simp [h0]
  split
  next hn => simp [hn] at h
  · dsimp only
    split <;> rfl

end Register

section Evict

variable (F : Fabric) (coord : Tryte9) (t : ℕ)

theorem forgetName_frame :
    (forgetName F coord).cells = F.cells ∧ (forgetName F coord).lattice = F.lattice ∧
      (forgetName F coord).cellCount = F.cellCount ∧
      (forgetName F coord).latticeStable = F.latticeStable ∧
      (forgetName F coord).registry.capacity = F.registry.capacity := by
  unfold forgetName
  split
  · exact ⟨rfl, rfl, rfl, rfl, rfl⟩
  · exact ⟨rfl, rfl, rfl, rfl, registryRemoveCoord_capacity _ _⟩

theorem evict_cells : (evict F t).cells = F.cells := (forgetName_frame F _).1

theorem evict_cellCount : (evict F t).cellCount = F.cellCount := (forgetName_frame F _).2.2.1

theorem evict_stable : (evict F t).latticeStable = F.latticeStable :=
  (forgetName_frame F _).2.2.2.1

theorem evict_capacity : (evict F t).registry.capacity = F.registry.capacity :=
  (forgetName_frame F _).2.2.2.2

theorem evict_lattice : (evict F t).lattice =
    latticeRemove latticeBuckets F.lattice F.cells F.cellCount (F.cells t).coord := by
  obtain ⟨hc, hl, hn, -, -⟩ := forgetName_frame F (F.cells t).coord
  simp only [evict, hc, hl, hn]

/-- The registry entries left once the victim's own is gone. -/
def countWithout (reg : Registry) (coord : Tryte9) : ℕ :=
  if (registryFindCoord reg coord).isSome then reg.count - 1 else reg.count

theorem evict_registry_count :
    (evict F t).registry.count = countWithout F.registry (F.cells t).coord := by
  change (forgetName F (F.cells t).coord).registry.count = _
  unfold forgetName countWithout
  split
  next hf => simp [hf]
  next hf =>
    rw [hf, Option.isSome_some, if_pos rfl]
    exact registryRemoveCoord_count _ _ (by simp [hf])

theorem findVictim_lt {F : Fabric} {t : ℕ} (h : findVictim F = some t) :
    t < fabricMaxCells ∧ cellIsEvictable (F.cells t) = true := by
  refine ⟨?_, List.find?_some (p := fun target => cellIsEvictable (F.cells target)) h⟩
  obtain ⟨i, -, rfl⟩ := List.mem_map.mp (List.mem_of_find?_eq_some h)
  exact Nat.mod_lt _ (by decide)

theorem exists_victim {F : Fabric} {v : ℕ} (hv : v < fabricMaxCells)
    (he : cellIsEvictable (F.cells v) = true) : ∃ t, findVictim F = some t := by
  cases hf : findVictim F with
  | some t => exact ⟨t, rfl⟩
  | none =>
    have hmem : ∃ i ∈ List.range fabricMaxCells, (F.lastEvictionIdx + i) % fabricMaxCells = v := by
      refine ⟨(v + fabricMaxCells - F.lastEvictionIdx % fabricMaxCells) % fabricMaxCells, ?_, ?_⟩
      · exact List.mem_range.mpr (Nat.mod_lt _ (by decide))
      · simp only [fabricMaxCells] at *
        omega
    exact absurd he (List.find?_eq_none.mp hf v (List.mem_map.mpr hmem))

end Evict

/-- A claimed slot: the fabric indexes every live cell but the slot's own. -/
structure Claimed (F F' : Fabric) (idx : ℕ) : Prop where
  cells : F'.cells = F.cells
  stable : F'.latticeStable = true
  capacity : F'.registry.capacity = fabricMaxCells
  count_le : F'.cellCount ≤ fabricMaxCells
  idx_lt : idx < F'.cellCount
  old : ∀ v < F'.cellCount, v ≠ idx → v < F.cellCount
  indexed : LatticeIndexes latticeBuckets F'.lattice F.cells (liveSlots F' \ {idx})

theorem FabricSound.evict {F : Fabric} (h : FabricSound F) {t : ℕ} (ht : t < F.cellCount) :
    Claimed F (evict F t) t where
  cells := evict_cells F t
  stable := (evict_stable F t).trans h.stable
  capacity := (evict_capacity F t).trans h.capacity
  count_le := (evict_cellCount F t).trans_le h.count_le
  idx_lt := by rwa [evict_cellCount]
  old v hv _ := by rwa [evict_cellCount] at hv
  indexed := by
    rw [evict_lattice, liveSlots, evict_cellCount]
    exact h.indexed.remove (fun _ hv => hv) h.count_lt ht

theorem FabricSound.append {F : Fabric} (h : FabricSound F) (hroom : F.cellCount < fabricMaxCells) :
    Claimed F { F with cellCount := F.cellCount + 1 } F.cellCount where
  cells := rfl
  stable := h.stable
  capacity := h.capacity
  count_le := hroom
  idx_lt := Nat.lt_succ_self _
  old v hv hne := by
    dsimp only at hv
    omega
  indexed := by
    have hset : liveSlots { F with cellCount := F.cellCount + 1 } \ {F.cellCount} =
        liveSlots F := by
      ext v
      simp only [liveSlots, Set.mem_sdiff, Set.mem_ofPred_eq, Set.mem_singleton_iff]
      omega
    rw [hset]
    exact h.indexed

theorem Claimed.publish {F F' : Fabric} {idx : ℕ} (h : Claimed F F' idx) {coord : Tryte9}
    (hfree : CoordFree F coord) (reg : Registry) (hreg : reg.capacity = fabricMaxCells)
    (sys : Bool) : FabricSound (publish { F' with registry := reg } idx coord sys) where
  stable := h.stable
  count_le := h.count_le
  capacity := hreg
  indexed := by
    have hsub : ∀ v ∈ liveSlots F' \ {idx}, v < F'.cellCount := fun v hv => hv.1
    have hcells : ∀ v ∈ liveSlots F' \ {idx},
        Function.update F.cells idx (freshCell coord sys) v = F.cells v :=
      fun v hv => Function.update_of_ne hv.2 _ _
    have hcong : LatticeIndexes latticeBuckets F'.lattice
        (Function.update F.cells idx (freshCell coord sys)) (liveSlots F' \ {idx}) :=
      h.indexed.congr fun v hv => congrArg Cell.coord (hcells v hv)
    have hset : liveSlots F' = liveSlots F' \ {idx} ∪ {idx} := by
      ext v
      have := h.idx_lt
      simp only [liveSlots, Set.mem_union, Set.mem_sdiff, Set.mem_ofPred_eq,
        Set.mem_singleton_iff]
      omega
    change LatticeIndexes latticeBuckets (latticeInsert latticeBuckets F'.lattice
      (Function.update F'.cells idx (freshCell coord sys)) F'.cellCount coord idx).1
      (Function.update F'.cells idx (freshCell coord sys)) (liveSlots F')
    rw [h.cells, hset]
    refine hcong.insert hsub (lt_of_le_of_lt h.count_le (by decide)) (fun hv => hv.2 rfl)
      (by simp [freshCell]) fun w hw => ?_
    rw [hcells w hw]
    exact hfree w (h.old w hw.1 hw.2)

/-- The tables an allocation works on are the same. -/
structure SameTables (F F' : Fabric) : Prop where
  cells : F'.cells = F.cells
  cellCount : F'.cellCount = F.cellCount
  lattice : F'.lattice = F.lattice
  registry : F'.registry = F.registry

theorem SameTables.refl (F : Fabric) : SameTables F F := ⟨rfl, rfl, rfl, rfl⟩

/-- On a full fabric the victim's slot can be given to the new name. -/
def EvictionSafe (atlas : Atlas) (F : Fabric) (name : Option CName) (sys : Bool) : Prop :=
  F.cellCount < fabricMaxCells ∨
    ∀ t, findVictim F = some t → ∀ s, name = some s →
      RegisterAccepts atlas s sys (countWithout F.registry (F.cells t).coord)

section AllocLocked

variable {atlas : Atlas} {F : Fabric} {name : Option CName} {coord : Tryte9} {sys ret : Bool}
  (h : FabricSound F)
include h

theorem FabricSound.claim {idx : ℕ} {F' : Fabric} (hc : claimSlot F = some (idx, F')) :
    Claimed F F' idx ∧ (F.cellCount < fabricMaxCells ∧ idx = F.cellCount ∧
        F' = { F with cellCount := F.cellCount + 1 } ∨
      F.cellCount = fabricMaxCells ∧ findVictim F = some idx ∧ F' = Goose.evict F idx) := by
  unfold claimSlot at hc
  split at hc
  next hroom =>
    cases hc
    exact ⟨h.append hroom, .inl ⟨hroom, rfl, rfl⟩⟩
  next hfull =>
    have hcount : F.cellCount = fabricMaxCells := by
      have := h.count_le
      omega
    obtain ⟨t, ht, hpair⟩ := Option.map_eq_some_iff.mp hc
    cases hpair
    have hlt := (findVictim_lt ht).1
    exact ⟨h.evict (by omega), .inr ⟨hcount, ht, rfl⟩⟩

/-- An allocation at a coordinate in use changes the registry at most. -/
theorem FabricSound.allocLocked_occupied {e : ℕ} (he : getCellByCoord F coord = some e) :
    FabricSound (allocLocked atlas true F name coord sys ret).2 := by
  have hreg : ∀ reg : Registry, reg.capacity = fabricMaxCells →
      FabricSound { F with registry := reg } := fun reg hr => ⟨h.stable, h.count_le, hr, h.indexed⟩
  simp only [allocLocked, Bool.not_true, Bool.false_eq_true, if_false, he]
  cases name with
  | none => exact h
  | some s => exact hreg _ ((gooniesRegister_capacity _ _ _ _ _).trans h.capacity)

variable (hfree : CoordFree F coord)
include hfree

variable (atlas name sys ret) in
/-- A claimed slot for a new coordinate: published, or given up when the name is refused. -/
theorem FabricSound.allocLocked_claimed {idx : ℕ} {F' : Fabric}
    (hc : claimSlot F = some (idx, F')) :
    (∀ s, name = some s → RegisterAccepts atlas s sys F'.registry.count) ∧
        (allocLocked atlas true F name coord sys ret).1 = some idx ∧
        FabricSound (allocLocked atlas true F name coord sys ret).2 ∨
      (∃ s, name = some s ∧ ¬ RegisterAccepts atlas s sys F'.registry.count) ∧
        allocLocked atlas true F name coord sys ret = (none, { F' with
          cellCount :=
            if F.cellCount < fabricMaxCells then F'.cellCount - 1 else F'.cellCount }) := by
  obtain ⟨hclaim, -⟩ := h.claim hc
  have hnone := (h.getCell_none_iff coord).mpr hfree
  simp only [allocLocked, Bool.not_true, Bool.false_eq_true, if_false, hnone, hc]
  cases name with
  | none => exact .inl ⟨by simp, rfl, hclaim.publish hfree F'.registry hclaim.capacity sys⟩
  | some s =>
    have hiff := gooniesRegister_ok_iff atlas F'.registry s coord sys hclaim.capacity
    dsimp only
    split
    next hfail =>
      refine .inr ⟨⟨s, rfl, fun hacc => hfail (hiff.mpr hacc)⟩, ?_⟩
      rw [gooniesRegister_fail _ _ _ _ _ hfail]
    next hok =>
      refine .inl ⟨?_, rfl, hclaim.publish hfree _ ?_ sys⟩
      · intro s' hs'
        cases hs'
        exact hiff.mp (not_not.mp hok)
      · exact (gooniesRegister_capacity _ _ _ _ _).trans hclaim.capacity

/-- At a free coordinate a failing allocation leaves the tables alone exactly if no victim
is lost to a name that is then refused; and in that case the fabric stays sound. -/
theorem FabricSound.allocLocked_free :
    (EvictionSafe atlas F name sys → FabricSound (allocLocked atlas true F name coord sys ret).2) ∧
    (((allocLocked atlas true F name coord sys ret).1 = none →
        SameTables F (allocLocked atlas true F name coord sys ret).2) ↔
      EvictionSafe atlas F name sys) := by
  have hnone := (h.getCell_none_iff coord).mpr hfree
  cases hc : claimSlot F with
  | none =>
    have hsame : allocLocked atlas true F name coord sys ret = (none, F) := by
      simp only [allocLocked, Bool.not_true, Bool.false_eq_true, if_false, hnone, hc]
    have hvictim : findVictim F = none := by
      unfold claimSlot at hc
      split at hc
      · cases hc
      · simpa using hc
    rw [hsame]
    refine ⟨fun _ => h, fun _ => .inr fun t ht => ?_, fun _ _ => .refl F⟩
    rw [hvictim] at ht
    cases ht
  | some claimed =>
    obtain ⟨idx, F'⟩ := claimed
    obtain ⟨hclaim, hroom | ⟨hfull, hv, rfl⟩⟩ := h.claim hc
    · obtain ⟨hlt, -, rfl⟩ := hroom
      have hsafe : EvictionSafe atlas F name sys := .inl hlt
      rcases h.allocLocked_claimed atlas name sys ret hfree hc with
        ⟨-, hsome, hsound⟩ | ⟨-, hfail⟩
      · refine ⟨fun _ => hsound, fun _ => hsafe, fun _ hn => ?_⟩
        rw [hsome] at hn
        cases hn
      · rw [hfail, if_pos hlt]
        exact ⟨fun _ => h, fun _ => hsafe, fun _ _ => .refl F⟩
    · have hcount := evict_registry_count F idx
      have hsafe_iff : EvictionSafe atlas F name sys ↔
          ∀ s, name = some s → RegisterAccepts atlas s sys (Goose.evict F idx).registry.count := by
        rw [hcount]
        constructor
        · rintro (hlt | hall)
          · omega
          · exact hall idx hv
        · intro hall
          refine .inr fun t ht => ?_
          rw [hv] at ht
          cases ht
          exact hall
      rw [hsafe_iff]
      rcases h.allocLocked_claimed atlas name sys ret hfree hc with
        ⟨hacc, hsome, hsound⟩ | ⟨⟨s, hs, hno⟩, hfail⟩
      · refine ⟨fun _ => hsound, fun _ => hacc, fun _ hn => ?_⟩
        rw [hsome] at hn
        cases hn
      · refine ⟨fun hall => absurd (hall s hs) hno, fun hsame => ?_, fun hall => absurd (hall s hs) hno⟩
        have hlat : (Goose.evict F idx).lattice = F.lattice := by
          have := (hsame (by rw [hfail])).lattice
          rwa [hfail] at this
        have hidx : idx < F.cellCount := by
          have := (findVictim_lt hv).1
          omega
        have hin : Holds latticeBuckets F.lattice idx := (h.indexed.holds idx).mpr hidx
        rw [← hlat] at hin
        exact absurd rfl ((hclaim.indexed.holds idx).mp hin).2

end AllocLocked

/-- Writes that leave a cell's coordinate alone: pulses, agency, learning. -/
theorem FabricSound.write {F : Fabric} (h : FabricSound F) {idx : ℕ} {cell : Cell}
    (hc : cell.coord = (F.cells idx).coord) :
    FabricSound { F with cells := Function.update F.cells idx cell } where
  stable := h.stable
  count_le := h.count_le
  capacity := h.capacity
  indexed := h.indexed.congr fun v _ => by
    by_cases hv : v = idx
    · subst v
      simp [hc]
    · simp [hv]

theorem rebuildLattice_indexes {cells : ℕ → Cell} {count : ℕ} (hlt : count < latticeBuckets)
    (hinj : ∀ v < count, ∀ w < count, (cells v).coord = (cells w).coord → v = w) {k : ℕ}
    (hk : k ≤ count) :
    LatticeIndexes latticeBuckets (rebuildLattice cells count k) cells { v | v < k } := by
  induction k with
  | zero =>
    have hset : { v : ℕ | v < 0 } = ∅ := by
      ext v
      simp
    rw [hset]
    exact latticeIndexes_clear
  | succ k ih =>
    have hset : { v : ℕ | v < k + 1 } = { v | v < k } ∪ {k} := by
      ext v
      simp only [Set.mem_union, Set.mem_ofPred_eq, Set.mem_singleton_iff]
      omega
    rw [hset]
    refine (ih (by omega)).insert (fun v hv => ?_) hlt (lt_irrefl k) rfl fun w hw he => ?_
    · have hv : v < k := hv
      omega
    · have hw : w < k := hw
      have := hinj w (by omega) k (by omega) he
      omega

theorem fabricReset_sound {F : Fabric} (cold : Bool) (h : cold = true ∨ FabricSound F) :
    FabricSound (fabricReset cold F) := by
  cases cold with
  | true =>
    have hset : liveSlots (fabricReset true F) = ∅ := by
      ext v
      simp [liveSlots, fabricReset]
    refine ⟨rfl, Nat.zero_le _, rfl, ?_⟩
    rw [hset]
    exact latticeIndexes_clear
  | false =>
    have hF : FabricSound F := by simpa using h
    exact ⟨rfl, hF.count_le, rfl,
      rebuildLattice_indexes hF.count_lt (fun _ hv _ hw => hF.coord_inj hv hw) le_rfl⟩

theorem gooniesRegister_count (atlas : Atlas) (reg : Registry) (name : CName) (coord : Tryte9)
    (sys : Bool) : (gooniesRegister atlas reg name coord sys).2.count ≤ reg.count + 1 := by
  have hset : ∀ idx, (registrySetCoord reg idx coord).count = reg.count := by
    intro idx
    unfold registrySetCoord
    split
    · rfl
    split <;> rfl
  unfold gooniesRegister
  split
  · exact Nat.le_succ _
  split
  · exact Nat.le_succ _
  split
  · split
    · exact Nat.le_succ _
    · exact (hset _).trans_le (Nat.le_succ _)
  · split
    · exact Nat.le_succ _
    unfold registryAdd
    split
    · exact Nat.le_succ _
    next hadd =>
      split at hadd
      · cases hadd
      split at hadd <;> cases hadd
      exact le_rfl

theorem claimSlot_registry_count {F F' : Fabric} {idx : ℕ} (h : claimSlot F = some (idx, F')) :
    F'.registry.count ≤ F.registry.count := by
  unfold claimSlot at h
  split at h
  · cases h
    exact le_rfl
  · obtain ⟨t, -, hpair⟩ := Option.map_eq_some_iff.mp h
    cases hpair
    rw [evict_registry_count]
    unfold countWithout
    split
    · exact Nat.sub_le _ _
    · exact le_rfl

theorem allocLocked_registry_count (atlas : Atlas) (lock : Bool) (F : Fabric)
    (name : Option CName) (coord : Tryte9) (sys ret : Bool) :
    (allocLocked atlas lock F name coord sys ret).2.registry.count ≤ F.registry.count + 1 := by
  unfold allocLocked
  split
  · exact Nat.le_succ _
  split
  · cases name with
    | none => exact Nat.le_succ _
    | some s => exact gooniesRegister_count _ _ _ _ _
  · split
    · exact Nat.le_succ _
    next hc =>
      have hcount := claimSlot_registry_count hc
      cases name with
      | none => exact Nat.le_succ_of_le hcount
      | some s =>
        dsimp only
        split
        · exact (gooniesRegister_count _ _ _ _ _).trans (by omega)
        · exact (gooniesRegister_count _ _ _ _ _).trans (by omega)

/-- A system weave of a usable name keeps the fabric sound while the registry has room. -/
theorem FabricSound.alloc_system {atlas : Atlas} {F : Fabric} (h : FabricSound F) {s : CName}
    (hlen : 3 ≤ s.length ∧ s.length < registryNameMax) (hroom : F.registry.count < fabricMaxCells)
    (coord : Tryte9) (ret : Bool) :
    FabricSound (allocLocked atlas true F (some s) coord true ret).2 := by
  cases he : getCellByCoord F coord with
  | some e => exact h.allocLocked_occupied he
  | none =>
    refine (h.allocLocked_free ((h.getCell_none_iff coord).mp he)).1 (.inr fun t _ s' hs' => ?_)
    cases hs'
    refine ⟨lt_of_le_of_lt ?_ hroom, hlen.1, hlen.2, fun _ => rfl⟩
    unfold countWithout
    split
    · exact Nat.sub_le _ _
    · exact le_rfl

theorem fabricInit_sound (atlas : Atlas) {F : Fabric} (cold purpose : Bool)
    (h : cold = true ∨ FabricSound F) : FabricSound (fabricInit atlas cold purpose F) := by
  have h₀ := fabricReset_sound cold h
  have hc₀ : (fabricReset cold F).registry.count = 0 := rfl
  have h₁ : FabricSound (seedCell atlas (fabricReset cold F) seedOrigin (makeCoord 0 0 0)) :=
    h₀.alloc_system (by decide) (by rw [hc₀]; decide) _ _
  have hc₁ : (seedCell atlas (fabricReset cold F) seedOrigin (makeCoord 0 0 0)).registry.count
      ≤ 1 := allocLocked_registry_count atlas true (fabricReset cold F) (some seedOrigin)
        (makeCoord 0 0 0) true false
  have h₂ := @FabricSound.alloc_system atlas _ h₁ seedLedIntent (by decide)
    (lt_of_le_of_lt hc₁ (by decide)) (makeCoord 0 0 1) false
  have hc₂ := (allocLocked_registry_count atlas true
    (seedCell atlas (fabricReset cold F) seedOrigin (makeCoord 0 0 0)) (some seedLedIntent)
    (makeCoord 0 0 1) true false).trans (Nat.add_le_add_right hc₁ 1)
  cases purpose with
  | false => exact h₂
  | true =>
    have h₃ := @FabricSound.alloc_system atlas _ h₂ seedPurpose (by decide)
      (lt_of_le_of_lt hc₂ (by decide)) (makeCoord 0 0 2) true
    simp only [fabricInit, if_true, seedPurposeCell]
    split
    · exact h₃
    · exact h₃.write rfl

inductive FabricOp where
  | alloc (lock : Bool) (name : Option CName) (coord : Tryte9) (sys ret : Bool)
  /-- Any write to a cell that keeps its coordinate. -/
  | write (idx : ℕ) (cell : Cell)
  | boot (cold purpose : Bool)

inductive FabricStep (atlas : Atlas) : Fabric → FabricOp → Fabric → Prop where
  | alloc (F : Fabric) (lock : Bool) (name : Option CName) (coord : Tryte9) (sys ret : Bool) :
      FabricStep atlas F (.alloc lock name coord sys ret)
        (fabricAllocInternal atlas lock F name coord sys ret).2
  | write (F : Fabric) (idx : ℕ) (cell : Cell) (h : cell.coord = (F.cells idx).coord) :
      FabricStep atlas F (.write idx cell) { F with cells := Function.update F.cells idx cell }
  | boot (F : Fabric) (cold purpose : Bool) :
      FabricStep atlas F (.boot cold purpose) (fabricInit atlas cold purpose F)

/-- The allocation gives up before it looks for a slot. -/
def Refused (atlas : Atlas) (lock : Bool) (F : Fabric) (sys : Bool) : Prop :=
  lock = false ∨ sys = false ∧ (heapPressure atlas lock F).1 = true

/-- An allocation at a free coordinate that returns NULL leaves the tables as they were. -/
def Atomic (atlas : Atlas) (F : Fabric) (op : FabricOp) (_ : Fabric) : Prop :=
  match op with
  | .alloc lock name coord sys ret => CoordFree F coord →
      (fabricAllocInternal atlas lock F name coord sys ret).1 = none →
        SameTables F (fabricAllocInternal atlas lock F name coord sys ret).2
  | _ => True

def NoVictimLost (atlas : Atlas) (F : Fabric) (op : FabricOp) (_ : Fabric) : Prop :=
  match op with
  | .alloc lock name coord sys _ => CoordFree F coord →
      Refused atlas lock F sys ∨ EvictionSafe atlas F name sys
  | _ => True

section Run

variable {atlas : Atlas} (hatlas : atlas heapPressureName = none)
include hatlas

theorem heapPressure_fabric (lock : Bool) (F : Fabric) : (heapPressure atlas lock F).2 = F := by
  unfold heapPressure resolveCell
  rw [hatlas]
  dsimp only
  split <;> rfl

theorem fabricAllocInternal_refused {lock : Bool} {F : Fabric} {sys : Bool}
    (hr : Refused atlas lock F sys) (name : Option CName) (coord : Tryte9) (ret : Bool) :
    fabricAllocInternal atlas lock F name coord sys ret = (none, F) := by
  have hF := heapPressure_fabric hatlas lock F
  unfold fabricAllocInternal
  rcases hr with rfl | ⟨rfl, hp⟩
  · cases sys <;> simp [allocLocked, hF]
  · simp [hp, hF]

theorem fabricAllocInternal_free {lock : Bool} {F : Fabric} {sys : Bool}
    (hr : ¬ Refused atlas lock F sys) (name : Option CName) (coord : Tryte9) (ret : Bool) :
    fabricAllocInternal atlas lock F name coord sys ret =
      allocLocked atlas true F name coord sys ret := by
  simp only [Refused, not_or, Bool.not_eq_false] at hr
  obtain ⟨rfl, hp⟩ := hr
  have hF := heapPressure_fabric hatlas true F
  unfold fabricAllocInternal
  cases sys with
  | true => rfl
  | false =>
    have hp : (heapPressure atlas true F).1 = false := by simpa using hp
    simp [hp, hF]

theorem FabricSound.atomic_iff {F F' : Fabric} {op : FabricOp} (h : FabricSound F) :
    Atomic atlas F op F' ↔ NoVictimLost atlas F op F' := by
  cases op with
  | write => exact Iff.rfl
  | boot => exact Iff.rfl
  | alloc lock name coord sys ret =>
    refine forall_congr' fun hfree => ?_
    by_cases hr : Refused atlas lock F sys
    · rw [fabricAllocInternal_refused hatlas hr]
      exact ⟨fun _ => .inl hr, fun _ _ => .refl F⟩
    · rw [fabricAllocInternal_free hatlas hr]
      refine (h.allocLocked_free hfree).2.trans ⟨.inr, fun hs => ?_⟩
      exact hs.resolve_left hr

theorem FabricSound.step {F F' : Fabric} {op : FabricOp} (h : FabricSound F)
    (hs : FabricStep atlas F op F') (hv : NoVictimLost atlas F op F') : FabricSound F' := by
  cases hs with
  | write idx cell hc => exact h.write hc
  | boot cold purpose => exact fabricInit_sound atlas cold purpose (.inr h)
  | alloc lock name coord sys ret =>
    by_cases hr : Refused atlas lock F sys
    · rwa [fabricAllocInternal_refused hatlas hr]
    · rw [fabricAllocInternal_free hatlas hr]
      cases he : getCellByCoord F coord with
      | some e => exact h.allocLocked_occupied he
      | none =>
        have hfree := (h.getCell_none_iff coord).mp he
        exact (h.allocLocked_free hfree).1 ((hv hfree).resolve_left hr)

/-- From a cold boot on, failed allocations leave no trace exactly if no allocation gives up
a victim for a name the registry then refuses. -/
theorem allocation_atomic_iff (purpose : Bool) (F₀ : Fabric) (ops : List FabricOp) (F : Fabric) :
    Always (FabricStep atlas) (Atomic atlas) (fabricInit atlas true purpose F₀) ops F ↔
      Always (FabricStep atlas) (NoVictimLost atlas) (fabricInit atlas true purpose F₀) ops F :=
  Always.iff_of_kept FabricSound (fun _ _ _ h hs hv => h.step hatlas hs hv)
    (fun _ _ _ h _ => h.atomic_iff hatlas) (fabricInit_sound atlas true purpose (.inl rfl))

end Run

def emptyAtlas : Atlas := fun _ => none

def blankFabric : Fabric where
  cells _ := zeroCell
  lattice := latticeClear
  cellCount := 0
  version := 0
  latticeStable := false
  registry := registryInit (fun _ => zeroEntry) fabricMaxCells registryBuckets
  lastEvictionIdx := 0
  evictionCount := 0
  evictionRing _ := []
  evictionRingIdx := 0

def coldFabric : Fabric := fabricInit emptyAtlas true false blankFabric

theorem coldFabric_seeds : coldFabric.cellCount = 2 ∧ ∀ v < 2, (coldFabric.cells v).coord 8 = 0 := by
  decide +kernel

/-- A failed allocation on a fabric with room: the name of two letters is refused. -/
theorem allocation_atomic_iff_cold :
    Always (FabricStep emptyAtlas) (Atomic emptyAtlas) coldFabric
      [.alloc true (some (ascii "ab")) (makeCoord 1 1 1) true false]
      (fabricAllocInternal emptyAtlas true coldFabric (some (ascii "ab")) (makeCoord 1 1 1) true
        false).2 := by
  refine (@allocation_atomic_iff emptyAtlas rfl false blankFabric _ _).mpr ?_
  refine .cons (.alloc _ _ _ _ _ _) (fun _ => .inr (.inl ?_)) (.nil _)
  change coldFabric.cellCount < fabricMaxCells
  rw [coldFabric_seeds.1]
  decide

def shadowCoord (v : ℕ) : Tryte9 := fun i => if i = 0 then v else if i = 8 then 1 else 0

theorem shadowCoord_inj {v w : ℕ} (h : shadowCoord v = shadowCoord w) : v = w := by
  have h0 : (v : ℤ) = w := by simpa [shadowCoord] using congrFun h 0
  omega

/-- The two seeds, then pages of the shadow namespace. -/
structure Filled (F : Fabric) : Prop where
  sound : FabricSound F
  seeded : ∀ v < 2, (F.cells v).coord 8 = 0
  paged : ∀ v < F.cellCount, 2 ≤ v → (F.cells v).coord = shadowCoord v

theorem Filled.free {F : Fabric} (h : Filled F) {w : ℕ} (hw : F.cellCount ≤ w) :
    CoordFree F (shadowCoord w) := by
  intro v hv hc
  by_cases h2 : v < 2
  · have h8 := h.seeded v h2
    rw [hc] at h8
    simp [shadowCoord] at h8
  · rw [h.paged v hv (by omega)] at hc
    have := shadowCoord_inj hc
    omega

theorem Filled.page {F : Fabric} (h : Filled F) (h2 : 2 ≤ F.cellCount)
    (hroom : F.cellCount < fabricMaxCells) :
    ∃ op F', FabricStep emptyAtlas F op F' ∧ Filled F' ∧ F'.cellCount = F.cellCount + 1 ∧
      F'.registry = F.registry := by
  have hfree := h.free le_rfl
  have hclaim : claimSlot F = some (F.cellCount, { F with cellCount := F.cellCount + 1 }) :=
    if_pos hroom
  have halloc : (fabricAllocInternal emptyAtlas true F none (shadowCoord F.cellCount) true
      false).2 = publish { F with cellCount := F.cellCount + 1 } F.cellCount
        (shadowCoord F.cellCount) true := by
    simp only [fabricAllocInternal, if_true, allocLocked, Bool.not_true, Bool.false_eq_true,
      if_false, (h.sound.getCell_none_iff _).mpr hfree, hclaim]
  refine ⟨.alloc true none (shadowCoord F.cellCount) true false, _, .alloc _ _ _ _ _ _, ?_⟩
  rw [halloc]
  refine ⟨⟨(h.sound.append hroom).publish hfree F.registry h.sound.capacity true, ?_, ?_⟩, rfl,
    rfl⟩
  · intro v hv
    have hne : v ≠ F.cellCount := by omega
    simpa [publish, hne] using h.seeded v hv
  · intro v hv hv2
    by_cases hne : v = F.cellCount
    · subst v
      simp [publish, freshCell]
    · have hlt : v < F.cellCount + 1 := hv
      simpa [publish, hne] using h.paged v (by omega) hv2

theorem coldFabric_filled : Filled coldFabric where
  sound := fabricInit_sound emptyAtlas true false (.inl rfl)
  seeded := coldFabric_seeds.2
  paged v hv h2 := by
    rw [coldFabric_seeds.1] at hv
    omega

theorem exists_filled {k : ℕ} (h2 : 2 ≤ k) (hk : k ≤ fabricMaxCells) :
    ∃ ops F, Run (FabricStep emptyAtlas) coldFabric ops F ∧ Filled F ∧ F.cellCount = k ∧
      F.registry = coldFabric.registry := by
  induction k, h2 using Nat.le_induction with
  | base => exact ⟨[], coldFabric, .nil _, coldFabric_filled, coldFabric_seeds.1, rfl⟩
  | succ k h2 ih =>
    obtain ⟨ops, F, hrun, hF, hcount, hreg⟩ := ih (by omega)
    obtain ⟨op, F', hstep, hF', hcount', hreg'⟩ := hF.page (by omega) (by omega)
    exact ⟨ops ++ [op], F', hrun.append (.single hstep), hF', by omega, hreg'.trans hreg⟩

/-- On a full fabric a name of two letters costs a cell its place in the index. -/
theorem full_fabric_loses_victim :
    ¬ ∀ (ops : List FabricOp) (F : Fabric), Run (FabricStep emptyAtlas) coldFabric ops F →
      ∀ (op : FabricOp) (F' : Fabric), FabricStep emptyAtlas F op F' → Atomic emptyAtlas F op F' := by
  intro hall
  obtain ⟨ops, F, hrun, hF, hcount, -⟩ := exists_filled (k := fabricMaxCells) (by decide) le_rfl
  have hfree := hF.free (w := fabricMaxCells) (le_of_eq hcount)
  have hatomic := hall ops F hrun
    (.alloc true (some (ascii "ab")) (shadowCoord fabricMaxCells) true false) _ (.alloc _ _ _ _ _ _)
  rcases (hF.sound.atomic_iff rfl).mp hatomic hfree with hr | hroom | hsafe
  · rcases hr with hr | ⟨hr, -⟩ <;> cases hr
  · omega
  · have hev : cellIsEvictable (F.cells 2) = true := by
      have h8 : (F.cells 2).coord 8 = 1 := by
        rw [hF.paged 2 (by rw [hcount]; decide) le_rfl]
        rfl
      simp [cellIsEvictable, policyCellEvictable, h8]
    obtain ⟨t, hv⟩ := exists_victim (by decide) hev
    exact absurd (hsafe t hv _ rfl).2.1 (by decide)

end ReflexOS.Goose
