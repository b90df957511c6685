import ReflexOS.GooseAllocation

set_option autoImplicit false

/-!
# The tables under every order of calls

A refused name can cost a cell its place in the index, and two names can share a
coordinate. What holds even so: the registry finds each of its names, and the coordinate
index finds the cells it still has.
-/
namespace ReflexOS.Goose
open VmTernary LinearProbing Runs

/-- The registry holds the name at the coordinate. -/
def Registered (reg : Registry) (name : CName) (coord : Tryte9) : Prop :=
  ∃ i < reg.count, reg.entries i = ⟨name, coord⟩

/-- The name index holds exactly the entries in `S`, with distinct names. -/
structure NamesOver (reg : Registry) (S : Set ℕ) : Prop where
  bounded : ∀ i ∈ S, i < reg.count
  buckets : reg.buckets = registryBuckets
  count_le : reg.count ≤ fabricMaxCells
  indexed : Indexes reg.buckets (fun i => (reg.entries i).key .name) (keyHash reg.buckets)
    reg.byName S

/-- No two entries share a name, and every name is found. -/
abbrev NamesIndexed (reg : Registry) : Prop := NamesOver reg (liveEntries reg)

section Names

variable {reg : Registry} (h : NamesIndexed reg)
include h

theorem NamesOver.keyed : KeyIndexed reg .name (liveEntries reg) where
  bounded := h.bounded
  room := by
    rw [h.buckets]
    exact lt_of_le_of_lt h.count_le (by decide)
  indexed := h.indexed

theorem NamesOver.find_iff (name : CName) (i : ℕ) :
    registryFindName reg name = some i ↔ i < reg.count ∧ (reg.entries i).name = name :=
  h.keyed.findName_iff name i

theorem NamesOver.name_inj {i j : ℕ} (hi : i < reg.count) (hj : j < reg.count)
    (hn : (reg.entries i).name = (reg.entries j).name) : i = j :=
  h.indexed.distinct i hi j hj (by simp [RegistryEntry.key, hn])

theorem NamesOver.resolve_iff (name : CName) (coord : Tryte9) :
    gooniesResolve reg name = some coord ↔ Registered reg name coord := by
  unfold gooniesResolve Registered
  rw [Option.map_eq_some_iff]
  constructor
  · rintro ⟨i, hf, hc⟩
    obtain ⟨hi, hn⟩ := (h.find_iff name i).mp hf
    exact ⟨i, hi, by rw [← hn, ← hc]⟩
  · rintro ⟨i, hi, he⟩
    exact ⟨i, (h.find_iff name i).mpr ⟨hi, congrArg RegistryEntry.name he⟩,
      congrArg RegistryEntry.coord he⟩

/-- A new name goes behind the others. -/
theorem NamesOver.add {name : CName} (coord : Tryte9)
    (hnew : registryFindName reg name = none) {idx : ℕ} {reg' : Registry}
    (hroom : reg.count < fabricMaxCells) (hadd : registryAdd reg name coord = some (idx, reg')) :
    NamesIndexed reg' ∧ reg'.count = reg.count + 1 ∧
      reg'.entries = Function.update reg.entries reg.count ⟨name, coord⟩ := by
  unfold registryAdd at hadd
  split at hadd
  · cases hadd
  split at hadd
  · cases hadd
  cases hadd
  have happend := h.keyed.append (e := ⟨name, coord⟩)
    (lt_of_le_of_lt (Nat.succ_le_of_lt hroom) (by rw [h.buckets]; decide)) fun i hi hk => by
      have hf := (h.find_iff name i).mpr ⟨hi, Key.name.inj hk⟩
      rw [hnew] at hf
      cases hf
  exact ⟨⟨happend.bounded, h.buckets, hroom, happend.indexed⟩, rfl, rfl⟩

theorem NamesOver.setCoord (idx : ℕ) (coord : Tryte9) :
    NamesIndexed (registrySetCoord reg idx coord) := by
  have hname : ∀ i, (Function.update reg.entries idx { reg.entries idx with coord := coord } i).name =
      (reg.entries i).name := by
    intro i
    by_cases hi : i = idx
    · subst hi
      rw [Function.update_self]
    · rw [Function.update_of_ne hi]
  unfold registrySetCoord
  split
  · exact h
  split
  · exact h
  exact ⟨h.bounded, h.buckets, h.count_le, h.indexed.congr fun i _ => congrArg Key.name (hname i)⟩

theorem NamesOver.register (atlas : Atlas) (name : CName) (coord : Tryte9) (sys : Bool) :
    NamesIndexed (gooniesRegister atlas reg name coord sys).2 := by
  unfold gooniesRegister
  split
  · exact h
  split
  · exact h
  cases hf : registryFindName reg name with
  | some idx =>
    dsimp only
    split
    · exact h
    · exact h.setCoord idx coord
  | none =>
    dsimp only
    split
    · exact h
    cases hadd : registryAdd reg name coord with
    | none => exact h
    | some added => exact (h.add coord hf (by omega) hadd).1

theorem NamesOver.registered_new {atlas : Atlas} {name : CName} {coord : Tryte9} {sys : Bool}
    (hnew : gooniesResolve reg name = none)
    (hok : (gooniesRegister atlas reg name coord sys).1 = Err.ok) (name' : CName)
    (coord' : Tryte9) :
    Registered (gooniesRegister atlas reg name coord sys).2 name' coord' ↔
      Registered reg name' coord' ∨ name' = name ∧ coord' = coord := by
  have hf : registryFindName reg name = none := Option.map_eq_none_iff.mp hnew
  unfold gooniesRegister at hok ⊢
  split at hok
  · cases hok
  next hroom =>
  split at hok
  · cases hok
  rw [hf] at hok ⊢
  dsimp only at hok ⊢
  split at hok
  · cases hok
  rw [if_neg hroom, if_neg ‹_›, if_neg ‹_›]
  cases hadd : registryAdd reg name coord with
  | none =>
    rw [hadd] at hok
    cases hok
  | some added =>
    obtain ⟨-, hcount, hentries⟩ := h.add coord hf (by omega) hadd
    unfold Registered
    dsimp only
    rw [hcount, hentries]
    constructor
    · rintro ⟨i, hi, he⟩
      by_cases hne : i = reg.count
      · subst hne
        rw [Function.update_self] at he
        cases he
        exact .inr ⟨rfl, rfl⟩
      · rw [Function.update_of_ne hne] at he
        exact .inl ⟨i, by omega, he⟩
    · rintro (⟨i, hi, he⟩ | ⟨rfl, rfl⟩)
      · exact ⟨i, by omega, by rw [Function.update_of_ne (by omega), he]⟩
      · exact ⟨reg.count, by omega, Function.update_self _ _ _⟩

theorem NamesOver.removeCoord {coord : Tryte9} {idx : ℕ}
    (hf : registryFindCoord reg coord = some idx) :
    NamesIndexed (registryRemoveCoord reg coord).2 ∧ ∀ name' coord',
      Registered (registryRemoveCoord reg coord).2 name' coord' ↔
        Registered reg name' coord' ∧ name' ≠ (reg.entries idx).name := by
  obtain ⟨hidx, -⟩ := registryFindCoord_some (Nat.zero_lt_of_lt h.keyed.room) hf
  obtain ⟨hcount, hentries, hbuckets, -⟩ := registryRemoveCoord_entries hidx hf
  have hremove := h.keyed.removeCoord hidx hf
  have hle : reg.count - 1 ≤ fabricMaxCells := (Nat.sub_le _ _).trans h.count_le
  have hlt : reg.count - 1 < reg.count := by omega
  refine ⟨⟨hremove.bounded, hbuckets.trans h.buckets, hcount ▸ hle, hremove.indexed⟩,
    fun name' coord' => ?_⟩
  unfold Registered
  rw [hcount]
  constructor
  · rintro ⟨i, hi, he⟩
    rw [hentries i hi] at he
    unfold withoutEntry at he
    split at he
    next heq =>
      subst heq
      exact ⟨⟨_, hlt, he⟩, fun hn => absurd (h.name_inj hidx hlt
        (hn.symm.trans (congrArg RegistryEntry.name he).symm)) (Nat.ne_of_lt hi)⟩
    next hne =>
      exact ⟨⟨i, by omega, he⟩, fun hn => hne (h.name_inj (by omega) hidx
        ((congrArg RegistryEntry.name he).trans hn))⟩
  · rintro ⟨⟨i, hi, he⟩, hn⟩
    have hne : i ≠ idx := by
      rintro rfl
      exact hn (congrArg RegistryEntry.name he).symm
    by_cases hil : i = reg.count - 1
    · subst hil
      exact ⟨idx, by omega, by rw [hentries idx (by omega), withoutEntry, if_pos rfl, he]⟩
    · exact ⟨i, by omega, by rw [hentries i (by omega), withoutEntry, if_neg hne, he]⟩

end Names

/-- The registry is in order, and the coordinate index holds the cells in `S`. -/
structure TablesSound (F : Fabric) (S : Set ℕ) : Prop where
  stable : F.latticeStable = true
  count_le : F.cellCount ≤ fabricMaxCells
  live : ∀ v ∈ S, v < F.cellCount
  indexed : LatticeIndexes latticeBuckets F.lattice F.cells S
  names : NamesIndexed F.registry

section Tables

variable {F : Fabric} {S : Set ℕ} (h : TablesSound F S)
include h

theorem TablesSound.count_lt : F.cellCount < latticeBuckets :=
  lt_of_le_of_lt h.count_le (by decide)

theorem TablesSound.getCell_iff (coord : Tryte9) (v : ℕ) :
    getCellByCoord F coord = some v ↔ v ∈ S ∧ (F.cells v).coord = coord := by
  rw [getCellByCoord, if_pos h.stable]
  exact h.indexed.find_iff h.live h.count_lt v

theorem TablesSound.getCell_none_iff (coord : Tryte9) :
    getCellByCoord F coord = none ↔ ∀ v ∈ S, (F.cells v).coord ≠ coord := by
  rw [getCellByCoord, if_pos h.stable]
  exact h.indexed.find_none_iff h.live h.count_lt

theorem TablesSound.setRegistry {reg : Registry} (hreg : NamesIndexed reg) :
    TablesSound { F with registry := reg } S := ⟨h.stable, h.count_le, h.live, h.indexed, hreg⟩

theorem TablesSound.append (hroom : F.cellCount < fabricMaxCells) :
    TablesSound { F with cellCount := F.cellCount + 1 } S :=
  ⟨h.stable, hroom, fun v hv => Nat.lt_succ_of_lt (h.live v hv), h.indexed, h.names⟩

theorem TablesSound.recoat {cells : ℕ → Cell} (hc : ∀ v, (cells v).coord = (F.cells v).coord) :
    TablesSound { F with cells := cells } S :=
  ⟨h.stable, h.count_le, h.live, h.indexed.congr fun v _ => hc v, h.names⟩

theorem TablesSound.forgetName (coord : Tryte9) : NamesIndexed (forgetName F coord).registry := by
  unfold Goose.forgetName
  split
  · exact h.names
  next g hf => exact (h.names.removeCoord hf).1

/-- Taking out a coordinate that no indexed cell has changes nothing. -/
theorem TablesSound.latticeRemove_absent {coord : Tryte9}
    (hno : ∀ v ∈ S, (F.cells v).coord ≠ coord) :
    latticeRemove latticeBuckets F.lattice F.cells F.cellCount coord = F.lattice := by
  refine remove_absent (fun v hv => ?_) (latticeHash_lt (by decide) _)
  have hS := (h.indexed.holds v).mp hv
  simpa using mt (slotMatches_iff h.live v hS).mp (hno v hS)

/-- Evicting a slot takes out whichever cell the index has at its coordinate. -/
theorem TablesSound.evict (t : ℕ) :
    TablesSound (evict F t) (S \ { v | (F.cells v).coord = (F.cells t).coord }) where
  stable := (evict_stable F t).trans h.stable
  count_le := (evict_cellCount F t).trans_le h.count_le
  live v hv := by
    rw [evict_cellCount]
    exact h.live v hv.1
  names := h.forgetName _
  indexed := by
    rw [evict_cells, evict_lattice]
    by_cases hhas : ∃ w ∈ S, (F.cells w).coord = (F.cells t).coord
    · obtain ⟨w, hw, hc⟩ := hhas
      have hset : S \ { v | (F.cells v).coord = (F.cells t).coord } = S \ {w} := by
        ext v
        constructor
        · exact fun hv => ⟨hv.1, fun he => hv.2 (by rw [show v = w from he]; exact hc)⟩
        · exact fun hv => ⟨hv.1, fun he => hv.2 (h.indexed.distinct v hv.1 w hw
            (Eq.trans he hc.symm))⟩
      rw [hset, ← hc]
      exact h.indexed.remove h.live h.count_lt hw
    · have hset : S \ { v | (F.cells v).coord = (F.cells t).coord } = S := by
        ext v
        exact ⟨fun hv => hv.1, fun hv => ⟨hv, fun he => hhas ⟨v, hv, he⟩⟩⟩
      rw [hset]
      have hsame := h.latticeRemove_absent fun v hv he => hhas ⟨v, hv, he⟩
      rw [hsame]
      exact h.indexed

theorem TablesSound.publish {idx : ℕ} (hlt : idx < F.cellCount) (hidx : idx ∉ S)
    {coord : Tryte9} (hfree : ∀ v ∈ S, (F.cells v).coord ≠ coord) (sys : Bool) :
    TablesSound (publish F idx coord sys) (S ∪ {idx}) where
  stable := h.stable
  count_le := h.count_le
  live := by
    rintro v (hv | rfl)
    · exact h.live v hv
    · exact hlt
  names := h.names
  indexed := by
    have hcells : ∀ v ∈ S, Function.update F.cells idx (freshCell coord sys) v = F.cells v := by
      intro v hv
      refine Function.update_of_ne ?_ _ _
      rintro rfl
      exact hidx hv
    have hcong : LatticeIndexes latticeBuckets F.lattice
        (Function.update F.cells idx (freshCell coord sys)) S :=
      h.indexed.congr fun v hv => congrArg Cell.coord (hcells v hv)
    refine hcong.insert h.live h.count_lt hidx (by simp [freshCell]) fun w hw => ?_
    rw [hcells w hw]
    exact hfree w hw

theorem TablesSound.claim {idx : ℕ} {F' : Fabric} (hc : claimSlot F = some (idx, F')) :
    ∃ S' ⊆ S, TablesSound F' S' ∧ idx ∉ S' ∧ idx < F'.cellCount ∧ F'.cells = F.cells := by
  unfold claimSlot at hc
  split at hc
  next hroom =>
    cases hc
    refine ⟨S, subset_rfl, h.append hroom, fun hv => ?_, Nat.lt_succ_self _, rfl⟩
    exact absurd (h.live _ hv) (lt_irrefl _)
  next hfull =>
    obtain ⟨t, ht, hpair⟩ := Option.map_eq_some_iff.mp hc
    cases hpair
    refine ⟨_, Set.sdiff_subset, h.evict idx, fun hv => hv.2 rfl, ?_, evict_cells F idx⟩
    rw [evict_cellCount]
    exact lt_of_lt_of_le (findVictim_lt ht).1 (not_lt.mp hfull)

theorem TablesSound.left_free {S' : Set ℕ} (hsub : S' ⊆ S) {F' : Fabric}
    (hcells : F'.cells = F.cells) {coord : Tryte9} (hget : getCellByCoord F coord = none) :
    ∀ v ∈ S', (F'.cells v).coord ≠ coord := by
  intro v hv
  rw [hcells]
  exact (h.getCell_none_iff coord).mp hget v (hsub hv)

/-- A slot given up again keeps what the claim left. -/
theorem TablesSound.giveUp {idx : ℕ} {F' : Fabric} (hc : claimSlot F = some (idx, F'))
    {reg : Registry} (hreg : NamesIndexed reg) :
    ∃ S', TablesSound { F' with
      registry := reg
      cellCount := if F.cellCount < fabricMaxCells then F'.cellCount - 1 else F'.cellCount } S' := by
  unfold claimSlot at hc
  split at hc
  next hroom =>
    cases hc
    rw [if_pos hroom]
    exact ⟨S, h.setRegistry hreg⟩
  next hfull =>
    obtain ⟨t, -, hpair⟩ := Option.map_eq_some_iff.mp hc
    cases hpair
    rw [if_neg hfull]
    exact ⟨_, (h.evict idx).setRegistry hreg⟩

theorem TablesSound.allocLocked (atlas : Atlas) (lock : Bool) (name : Option CName)
    (coord : Tryte9) (sys ret : Bool) :
    ∃ S', TablesSound (allocLocked atlas lock F name coord sys ret).2 S' := by
  unfold Goose.allocLocked
  split
  · exact ⟨S, h⟩
  cases hget : getCellByCoord F coord with
  | some e =>
    cases name with
    | none => exact ⟨S, h⟩
    | some s => exact ⟨S, h.setRegistry (h.names.register _ _ _ _)⟩
  | none =>
    cases hc : claimSlot F with
    | none => exact ⟨S, h⟩
    | some claimed =>
      obtain ⟨idx, F'⟩ := claimed
      obtain ⟨S', hsub, hF', hidx, hlt, hcells⟩ := h.claim hc
      have hfree := h.left_free hsub hcells hget
      cases name with
      | none => exact ⟨_, hF'.publish hlt hidx hfree sys⟩
      | some s =>
        have hreg := hF'.names.register atlas s coord sys
        dsimp only
        split
        · exact h.giveUp hc hreg
        · exact ⟨_, (hF'.setRegistry hreg).publish hlt hidx hfree sys⟩

end Tables

/-- Some cells are indexed, and the registry is in order. -/
def Tabled (F : Fabric) : Prop := ∃ S, TablesSound F S

section Runs

variable {F : Fabric}

theorem Tabled.write {idx : ℕ} {cell : Cell} (h : Tabled F) (hc : cell.coord = (F.cells idx).coord) :
    Tabled { F with cells := Function.update F.cells idx cell } := by
  obtain ⟨S, h⟩ := h
  exact ⟨S, h.recoat (update_coord hc)⟩

theorem Tabled.allocLocked (h : Tabled F) (atlas : Atlas) (lock : Bool) (name : Option CName)
    (coord : Tryte9) (sys ret : Bool) : Tabled (allocLocked atlas lock F name coord sys ret).2 := by
  obtain ⟨S, h⟩ := h
  exact h.allocLocked atlas lock name coord sys ret

theorem Tabled.resolveCell (h : Tabled F) (atlas : Atlas) (lock : Bool) (name : CName) :
    Tabled (resolveCell atlas lock F name).2 := by
  unfold Goose.resolveCell
  split
  · exact h
  · split
    · exact h
    next e _ =>
      have halloc := h.allocLocked atlas lock (some name) e.coord true false
      dsimp only
      split
      · exact halloc
      · exact halloc.write (setAgency_coord _ _ _)

theorem Tabled.alloc (h : Tabled F) (atlas : Atlas) (lock : Bool) (name : Option CName)
    (coord : Tryte9) (sys ret : Bool) :
    Tabled (fabricAllocInternal atlas lock F name coord sys ret).2 := by
  unfold fabricAllocInternal
  have hpressed : Tabled (heapPressure atlas lock F).2 := h.resolveCell atlas lock heapPressureName
  split
  · exact h.allocLocked _ _ _ _ _ _
  · dsimp only
    split
    · exact hpressed
    · exact hpressed.allocLocked _ _ _ _ _ _

/-- Cells with one coordinate displace each other as the index is rebuilt. -/
theorem rebuildLattice_latest {cells : ℕ → Cell} {count k : ℕ} (hlt : count < latticeBuckets)
    (hk : k ≤ count) : ∃ S : Set ℕ, (∀ v ∈ S, v < k) ∧
      LatticeIndexes latticeBuckets (rebuildLattice cells count k) cells S := by
  induction k with
  | zero => exact ⟨∅, fun v hv => absurd hv (Set.notMem_empty v), latticeIndexes_clear⟩
  | succ k ih =>
    obtain ⟨S, hS, hidx⟩ := ih (by omega)
    have hbound : ∀ v ∈ S, v < count := fun v hv => by
      have := hS v hv
      omega
    have hk' : k ∉ S := fun hv => absurd (hS k hv) (lt_irrefl k)
    by_cases hhas : ∃ w ∈ S, (cells w).coord = (cells k).coord
    · obtain ⟨w, hw, hc⟩ := hhas
      refine ⟨S \ {w} ∪ {k}, ?_, ?_⟩
      · rintro v (hv | rfl)
        · exact Nat.lt_succ_of_lt (hS v hv.1)
        · exact Nat.lt_succ_self _
      · exact Indexes.replace hidx (latticeHash_lt (by decide) _) (slotMatches_iff hbound) hw hc
          rfl hk'
    · refine ⟨S ∪ {k}, ?_, ?_⟩
      · rintro v (hv | rfl)
        · exact Nat.lt_succ_of_lt (hS v hv)
        · exact Nat.lt_succ_self _
      · exact hidx.insert hbound hlt hk' rfl fun w hw he => hhas ⟨w, hw, he⟩

theorem namesIndexed_init : NamesIndexed (registryInit (fun _ => zeroEntry) fabricMaxCells
    registryBuckets) where
  bounded i hi := hi
  buckets := rfl
  count_le := Nat.zero_le _
  indexed := by
    have hset : liveEntries (registryInit (fun _ => zeroEntry) fabricMaxCells registryBuckets) = ∅ := by
      ext i
      simp [liveEntries, registryInit]
    rw [hset]
    exact indexes_empty

theorem fabricReset_tabled (cold : Bool) (h : cold = true ∨ Tabled F) :
    Tabled (fabricReset cold F) := by
  cases cold with
  | true => exact ⟨∅, rfl, Nat.zero_le _, fun v hv => absurd hv (Set.notMem_empty v),
      latticeIndexes_clear, namesIndexed_init⟩
  | false =>
    obtain ⟨S, hF⟩ : Tabled F := by simpa using h
    obtain ⟨S', hlive, hidx⟩ := @rebuildLattice_latest F.cells _ _ hF.count_lt le_rfl
    exact ⟨S', rfl, hF.count_le, hlive, hidx, namesIndexed_init⟩

theorem fabricInit_tabled (atlas : Atlas) (cold purpose : Bool) (h : cold = true ∨ Tabled F) :
    Tabled (fabricInit atlas cold purpose F) := by
  have h₂ : Tabled (seedCell atlas (seedCell atlas (fabricReset cold F) seedOrigin
      (makeCoord 0 0 0)) seedLedIntent (makeCoord 0 0 1)) :=
    ((fabricReset_tabled cold h).alloc atlas true (some seedOrigin) (makeCoord 0 0 0) true
      false).alloc atlas true (some seedLedIntent) (makeCoord 0 0 1) true false
  cases purpose with
  | false => exact h₂
  | true =>
    have h₃ : Tabled (fabricEnsureCell atlas true (seedCell atlas (seedCell atlas
        (fabricReset cold F) seedOrigin (makeCoord 0 0 0)) seedLedIntent (makeCoord 0 0 1))
        (some seedPurpose) (makeCoord 0 0 2) true).2 :=
      h₂.alloc atlas true (some seedPurpose) (makeCoord 0 0 2) true true
    simp only [fabricInit, if_true, seedPurposeCell]
    split
    · exact h₃
    · exact h₃.write rfl

/-- From a cold boot on, whatever is allocated, written or rebooted. -/
theorem tabled_of_run {atlas : Atlas} {purpose : Bool} {F₀ : Fabric} {ops : List FabricOp}
    (hrun : Run (FabricStep atlas) (fabricInit atlas true purpose F₀) ops F) : Tabled F := by
  refine hrun.invariant Tabled (fun G op G' hG hstep => ?_) (fabricInit_tabled atlas true purpose
    (.inl rfl))
  cases hstep with
  | alloc lock name coord sys ret => exact hG.alloc atlas lock name coord sys ret
  | write idx cell hc => exact hG.write hc
  | boot cold purpose => exact fabricInit_tabled atlas cold purpose (.inr hG)

end Runs

end ReflexOS.Goose
