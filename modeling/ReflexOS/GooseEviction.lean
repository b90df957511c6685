import ReflexOS.GooseIdentity
import ReflexOS.GooseRegistryTable
import ReflexOS.GooseTables
import ReflexOS.RingBuffer

set_option autoImplicit false

/-!
# Eviction and the names

What an allocation does to cells and names where no two names share a coordinate, and the
ring that keeps the names of the last victims.
-/
namespace ReflexOS.Goose
open VmTernary LinearProbing Runs

/-- How many rows `goose_fabric_get_eviction_ring` fills. -/
def ringCount (evictionCount : ℕ) : ℕ :=
  if evictionCount < evictionRingSize then evictionCount else evictionRingSize

/-- The names of the most recent victims, oldest first. -/
def getEvictionRing (F : Fabric) : List CName :=
  let count := ringCount F.evictionCount
  (List.range count).map fun i => F.evictionRing
    ((F.evictionRingIdx + evictionRingSize - count + i) % 2 ^ 32 % evictionRingSize)

section Ring

theorem ringCount_le (count : ℕ) : ringCount count ≤ evictionRingSize := by
  unfold ringCount
  split <;> omega

/-- The counter that wraps shortens what is read, and never reaches behind it. -/
theorem ringCount_succ (count : ℕ) : ringCount ((count + 1) % 2 ^ 32) ≤ ringCount count + 1 := by
  unfold ringCount evictionRingSize
  split <;> split <;> omega

theorem getEvictionRing_eq_recent (F : Fabric) : getEvictionRing F =
    RingBuffer.recent evictionRingSize F.evictionRing F.evictionRingIdx
      (ringCount F.evictionCount) := by
  refine List.map_congr_left fun i _ => congrArg F.evictionRing ?_
  exact Nat.mod_mod_of_dvd _ (by decide)

theorem length_getEvictionRing (F : Fabric) : (getEvictionRing F).length ≤ evictionRingSize := by
  rw [getEvictionRing_eq_recent, RingBuffer.recent, List.length_map, List.length_range]
  exact ringCount_le _

theorem getEvictionRing_nil {F : Fabric} (h : F.evictionCount = 0) : getEvictionRing F = [] := by
  rw [getEvictionRing_eq_recent, h]
  rfl

/-- The index wraps at a multiple of the ring's size. -/
theorem recent_wrap (f : ℕ → CName) (idx c : ℕ) (hc : c ≤ evictionRingSize) :
    RingBuffer.recent evictionRingSize f (idx % 2 ^ 32) c =
      RingBuffer.recent evictionRingSize f idx c := by
  refine List.map_congr_left fun i _ => congrArg f ?_
  unfold evictionRingSize at hc ⊢
  omega

/-- A victim's name goes behind those that are still read. -/
theorem getEvictionRing_forget (F : Fabric) (coord : Tryte9) :
    getEvictionRing (forgetName F coord) <:+
      getEvictionRing F ++ (gooniesResolveNameByCoord F.registry coord).toList := by
  unfold forgetName gooniesResolveNameByCoord
  cases hf : registryFindCoord F.registry coord with
  | none => simp
  | some g =>
    rw [getEvictionRing_eq_recent, getEvictionRing_eq_recent]
    dsimp only [Option.map_some, Option.toList_some]
    have hcount := ringCount_succ F.evictionCount
    have hle := ringCount_le ((F.evictionCount + 1) % 2 ^ 32)
    rw [recent_wrap _ _ _ hle]
    cases hread : ringCount ((F.evictionCount + 1) % 2 ^ 32) with
    | zero => exact List.nil_suffix
    | succ c =>
      rw [hread] at hcount hle
      rw [RingBuffer.recent_push (by omega)]
      obtain ⟨older, h⟩ := @RingBuffer.recent_suffix CName evictionRingSize F.evictionRing
        F.evictionRingIdx _ c (Nat.le_of_succ_le_succ hcount) (ringCount_le F.evictionCount)
      exact ⟨older, by rw [← List.append_assoc, h]⟩

end Ring

/-- Both indexes are in order: no two entries share a name or a coordinate. -/
structure NamesTidy (reg : Registry) : Prop where
  coords : CoordsIndexed reg
  names : NamesIndexed reg

/-- The coordinate has no other name. -/
def OneName (reg : Registry) (name : CName) (coord : Tryte9) : Prop :=
  ∀ name', gooniesResolveNameByCoord reg coord = some name' → name' = name

/-- The registry after an allocation has registered the name it was given. -/
def withName (atlas : Atlas) (reg : Registry) (name : Option CName) (coord : Tryte9)
    (sys : Bool) : Registry :=
  match name with
  | none => reg
  | some s => (gooniesRegister atlas reg s coord sys).2

theorem withName_count (atlas : Atlas) (reg : Registry) (name : Option CName) (coord : Tryte9)
    (sys : Bool) : (withName atlas reg name coord sys).count ≤ reg.count + 1 := by
  cases name with
  | none => exact Nat.le_succ _
  | some s => exact gooniesRegister_count atlas reg s coord sys

theorem gooniesRegister_accepted {atlas : Atlas} {reg : Registry} {name : CName} {coord : Tryte9}
    {sys : Bool} (hok : (gooniesRegister atlas reg name coord sys).1 = Err.ok) :
    (gooniesRegister atlas reg name coord sys).2 = registryStep reg
      (match registryFindName reg name with
        | none => .add name coord
        | some idx => .setCoord idx coord) := by
  unfold gooniesRegister at hok ⊢
  split at hok
  · cases hok
  next hroom =>
  split at hok
  · cases hok
  next hlen =>
  rw [if_neg hroom, if_neg hlen]
  cases hf : registryFindName reg name with
  | some idx =>
    rw [hf] at hok
    dsimp only at hok ⊢
    split at hok
    · cases hok
    next hguard => rw [if_neg hguard, registryStep]
  | none =>
    rw [hf] at hok
    dsimp only at hok ⊢
    split at hok
    · cases hok
    next hguard =>
      rw [if_neg hguard, registryStep]
      cases registryAdd reg name coord <;> rfl

section Names
variable {reg : Registry} (h : NamesTidy reg)
include h

theorem NamesTidy.resolveName_iff (name : CName) (coord : Tryte9) :
    gooniesResolveNameByCoord reg coord = some name ↔ Registered reg name coord := by
  unfold gooniesResolveNameByCoord Registered
  rw [Option.map_eq_some_iff]
  constructor
  · rintro ⟨i, hf, hn⟩
    obtain ⟨hi, hc⟩ := (h.coords.keyed.findCoord_iff coord i).mp hf
    exact ⟨i, hi, by rw [← hn, ← hc]⟩
  · rintro ⟨i, hi, he⟩
    exact ⟨i, (h.coords.keyed.findCoord_iff coord i).mpr ⟨hi, congrArg RegistryEntry.coord he⟩,
      congrArg RegistryEntry.name he⟩

theorem NamesTidy.resolve_none_iff (name : CName) :
    gooniesResolve reg name = none ↔ ∀ coord, ¬ Registered reg name coord := by
  rw [Option.eq_none_iff_forall_ne_some]
  exact forall_congr' fun coord => not_congr (h.names.resolve_iff name coord)

theorem NamesTidy.coord_unique {name : CName} {coord coord' : Tryte9}
    (hr : Registered reg name coord) (hr' : Registered reg name coord') : coord = coord' := by
  rw [← h.names.resolve_iff] at hr hr'
  exact Option.some.inj (hr.symm.trans hr')

theorem NamesTidy.name_unique {name name' : CName} {coord : Tryte9}
    (hr : Registered reg name coord) (hr' : Registered reg name' coord) : name = name' := by
  rw [← h.resolveName_iff] at hr hr'
  exact Option.some.inj (hr.symm.trans hr')

theorem NamesTidy.register_same {name : CName} {coord : Tryte9} (hr : Registered reg name coord)
    (atlas : Atlas) (sys : Bool) : (gooniesRegister atlas reg name coord sys).2 = reg := by
  obtain ⟨i, hi, he⟩ := hr
  have hfind := (h.names.find_iff name i).mpr ⟨hi, congrArg RegistryEntry.name he⟩
  have hset : registrySetCoord reg i coord = reg := by
    rw [registrySetCoord, if_neg (Nat.not_le_of_lt hi),
      if_pos ((coordEqual_iff _ _).mpr (congrArg RegistryEntry.coord he))]
  unfold gooniesRegister
  split
  · rfl
  split
  · rfl
  rw [hfind]
  dsimp only
  split
  · rfl
  · exact hset

/-- What a call does to a registry that gives no coordinate a second name. -/
theorem NamesTidy.register (atlas : Atlas) {name : CName} {coord : Tryte9}
    (hone : OneName reg name coord) (sys : Bool) :
    NamesTidy (gooniesRegister atlas reg name coord sys).2 ∧ ∀ name' coord',
      Registered (gooniesRegister atlas reg name coord sys).2 name' coord' →
        Registered reg name' coord' ∨ coord' = coord := by
  have hnames := h.names.register atlas name coord sys
  have hthere : ∀ i < reg.count, (reg.entries i).coord = coord → (reg.entries i).name = name := by
    intro i hi hc
    exact hone _ ((h.resolveName_iff _ coord).mpr ⟨i, hi, by rw [← hc]⟩)
  by_cases hok : (gooniesRegister atlas reg name coord sys).1 = Err.ok
  · have hcall := gooniesRegister_accepted hok
    cases hf : registryFindName reg name with
    | none =>
      refine ⟨⟨?_, hnames⟩, fun name' coord' hr => ?_⟩
      · have habsent : CoordAbsent reg coord := by
          intro i hi hc
          have hfound := (h.names.find_iff name i).mpr ⟨hi, hthere i hi hc⟩
          rw [hf] at hfound
          cases hfound
        rw [hcall, hf]
        exact h.coords.add name habsent
      · have hnew : gooniesResolve reg name = none := Option.map_eq_none_iff.mpr hf
        exact ((h.names.registered_new hnew hok name' coord').mp hr).imp_right And.right
    | some idx =>
      obtain ⟨hidx, hname⟩ := (h.names.find_iff name idx).mp hf
      rw [hf] at hcall
      rw [hcall] at hnames ⊢
      refine ⟨⟨h.coords.setCoord idx fun i hi hne hc => hne ?_, hnames⟩, fun name' coord' hr => ?_⟩
      · exact h.names.name_inj hi hidx ((hthere i hi hc).trans hname.symm)
      · obtain ⟨i, hi, he⟩ := hr
        change i < (registrySetCoord reg idx coord).count at hi
        change (registrySetCoord reg idx coord).entries i = _ at he
        rw [setCoord_entries hidx] at he
        rw [(setCoord_kept reg idx coord).1] at hi
        by_cases hne : i = idx
        · rw [hne, Function.update_self] at he
          exact .inr (congrArg RegistryEntry.coord he).symm
        · rw [Function.update_of_ne hne] at he
          exact .inl ⟨i, hi, he⟩
  · rw [gooniesRegister_fail _ _ _ _ _ hok]
    exact ⟨h, fun _ _ hr => .inl hr⟩

theorem NamesTidy.register_there {atlas : Atlas} {name : CName} {coord : Tryte9} {sys : Bool}
    (hok : (gooniesRegister atlas reg name coord sys).1 = Err.ok) :
    Registered (gooniesRegister atlas reg name coord sys).2 name coord := by
  cases hf : registryFindName reg name with
  | none =>
    have hnew : gooniesResolve reg name = none := Option.map_eq_none_iff.mpr hf
    exact (h.names.registered_new hnew hok name coord).mpr (.inr ⟨rfl, rfl⟩)
  | some idx =>
    obtain ⟨hidx, hname⟩ := (h.names.find_iff name idx).mp hf
    have hcall := gooniesRegister_accepted hok
    rw [hf] at hcall
    rw [hcall]
    change Registered (registrySetCoord reg idx coord) name coord
    refine ⟨idx, ?_, ?_⟩
    · rwa [(setCoord_kept reg idx coord).1]
    · rw [setCoord_entries hidx, Function.update_self]
      exact congrArg (RegistryEntry.mk · coord) hname

theorem NamesTidy.withName (atlas : Atlas) {name : Option CName} {coord : Tryte9}
    (hone : ∀ s, name = some s → OneName reg s coord) (sys : Bool) :
    NamesTidy (withName atlas reg name coord sys) ∧ ∀ name' coord',
      Registered (Goose.withName atlas reg name coord sys) name' coord' →
        Registered reg name' coord' ∨ coord' = coord := by
  cases name with
  | none => exact ⟨h, fun _ _ hr => .inl hr⟩
  | some s => exact h.register atlas (hone s rfl) sys

theorem NamesTidy.withName_new {atlas : Atlas} {name : Option CName} {coord : Tryte9} {sys : Bool}
    (hnew : ∀ s, name = some s → gooniesResolve reg s = none)
    (hok : ∀ s, name = some s → (gooniesRegister atlas reg s coord sys).1 = Err.ok)
    (name' : CName) (coord' : Tryte9) :
    Registered (Goose.withName atlas reg name coord sys) name' coord' ↔
      Registered reg name' coord' ∨ name = some name' ∧ coord' = coord := by
  cases name with
  | none => simp [Goose.withName]
  | some s =>
    refine (h.names.registered_new (hnew s rfl) (hok s rfl) name' coord').trans ?_
    rw [Option.some_inj, eq_comm (a := name')]

end Names

theorem NamesTidy.forget {F : Fabric} (h : NamesTidy F.registry) (coord : Tryte9) :
    NamesTidy (forgetName F coord).registry ∧ ∀ name' coord',
      Registered (forgetName F coord).registry name' coord' ↔
        Registered F.registry name' coord' ∧ coord' ≠ coord := by
  unfold forgetName
  cases hf : registryFindCoord F.registry coord with
  | none =>
    refine ⟨h, fun name' coord' => ⟨fun hr => ⟨hr, ?_⟩, And.left⟩⟩
    rintro rfl
    have hfound := (h.resolveName_iff name' coord').mpr hr
    rw [gooniesResolveNameByCoord, hf] at hfound
    cases hfound
  | some g =>
    obtain ⟨hg, hc⟩ := (h.coords.keyed.findCoord_iff coord g).mp hf
    obtain ⟨hnames, hleft⟩ := h.names.removeCoord hf
    refine ⟨⟨(h.coords.remove_found hf).1, hnames⟩, fun name' coord' => ?_⟩
    have hthere : Registered F.registry (F.registry.entries g).name coord :=
      ⟨g, hg, by rw [← hc]⟩
    refine (hleft name' coord').trans (and_congr_right fun hr => not_congr ⟨?_, ?_⟩)
    · rintro rfl
      exact h.coord_unique hr hthere
    · rintro rfl
      exact h.name_unique hr hthere

/-- What an allocation makes of a fabric: nothing, a name for a live cell, or a cell in a
claimed slot. -/
inductive Allocated (atlas : Atlas) (F : Fabric) (name : Option CName) (coord : Tryte9)
    (sys : Bool) : Fabric → Prop where
  | same : Allocated atlas F name coord sys F
  | named (v : ℕ) (hv : v < F.cellCount) (hc : (F.cells v).coord = coord) :
      Allocated atlas F name coord sys
        { F with registry := withName atlas F.registry name coord sys }
  | woven (idx : ℕ) (claimed : Fabric) (hclaim : claimSlot F = some (idx, claimed))
      (hfree : CoordFree F coord)
      (hok : ∀ s, name = some s → (gooniesRegister atlas claimed.registry s coord sys).1 = Err.ok) :
      Allocated atlas F name coord sys
        (publish { claimed with registry := withName atlas claimed.registry name coord sys } idx
          coord sys)

theorem allocLocked_woven {atlas : Atlas} {F claimed : Fabric} {name : Option CName}
    {coord : Tryte9} {sys : Bool} {idx : ℕ} (ret : Bool) (hget : getCellByCoord F coord = none)
    (hclaim : claimSlot F = some (idx, claimed))
    (hok : ∀ s, name = some s → (gooniesRegister atlas claimed.registry s coord sys).1 = Err.ok) :
    allocLocked atlas true F name coord sys ret = (some idx, publish
      { claimed with registry := withName atlas claimed.registry name coord sys } idx coord
        sys) := by
  unfold Goose.allocLocked
  rw [Bool.not_true, if_neg Bool.false_ne_true, hget]
  dsimp only
  rw [hclaim]
  cases name with
  | none => rfl
  | some s =>
    dsimp only
    rw [if_neg (not_not.mpr (hok s rfl)), withName]

/-- Where no victim is lost to a refused name, an allocation does one of the three. -/
theorem FabricSound.allocated {atlas : Atlas} {F : Fabric} (h : FabricSound F)
    {name : Option CName} {coord : Tryte9} {sys : Bool} (ret : Bool)
    (hsafe : CoordFree F coord → EvictionSafe atlas F name sys) :
    Allocated atlas F name coord sys (allocLocked atlas true F name coord sys ret).2 := by
  unfold Goose.allocLocked
  rw [Bool.not_true, if_neg Bool.false_ne_true]
  cases hget : getCellByCoord F coord with
  | some v =>
    obtain ⟨hv, hc⟩ := (h.getCell_iff coord v).mp hget
    cases name with
    | none => exact .same
    | some s => exact .named v hv hc
  | none =>
    have hfree := (h.getCell_none_iff coord).mp hget
    cases hclaim : claimSlot F with
    | none => exact .same
    | some pair =>
      obtain ⟨idx, claimed⟩ := pair
      cases name with
      | none => exact .woven idx claimed hclaim hfree (by simp)
      | some s =>
        dsimp only
        split
        next hfail =>
          obtain ⟨hsound, ⟨hroom, -, rfl⟩ | ⟨hfull, hv, rfl⟩⟩ := h.claim hclaim
          · rw [gooniesRegister_fail _ _ _ _ _ hfail, if_pos hroom]
            exact .same
          · have hacc := ((hsafe hfree).resolve_left (by omega)) idx hv s rfl
            rw [← evict_registry_count] at hacc
            exact absurd ((gooniesRegister_ok_iff _ _ _ _ _ hsound.capacity).mpr hacc) hfail
        next hok =>
          refine .woven idx claimed hclaim hfree fun s' hs' => ?_
          cases hs'
          exact not_not.mp hok

/-- Cells, coordinate index and names agree. -/
structure Tidy (F : Fabric) : Prop where
  fabric : FabricSound F
  names : NamesTidy F.registry
  live : ∀ name coord, Registered F.registry name coord → ¬ CoordFree F coord

section Tidy
variable {atlas : Atlas} {F F' : Fabric} {name : Option CName} {coord : Tryte9} {sys : Bool}
  (h : Tidy F)
include h

theorem Tidy.exists_live {name : CName} {coord : Tryte9} (hr : Registered F.registry name coord) :
    ∃ v < F.cellCount, (F.cells v).coord = coord := by
  have hlive := h.live name coord hr
  unfold CoordFree at hlive
  push Not at hlive
  exact hlive

/-- The names left in a claimed fabric are those of the cells other than the claimed slot's. -/
theorem Tidy.claim {idx : ℕ} (hclaim : claimSlot F = some (idx, F')) :
    NamesTidy F'.registry ∧ ∀ name coord, Registered F'.registry name coord →
      Registered F.registry name coord ∧
        ∃ v < F'.cellCount, v ≠ idx ∧ (F.cells v).coord = coord := by
  obtain ⟨-, ⟨hroom, rfl, rfl⟩ | ⟨hfull, hv, rfl⟩⟩ := h.fabric.claim hclaim
  · refine ⟨h.names, fun name coord hr => ⟨hr, ?_⟩⟩
    obtain ⟨v, hv, hc⟩ := h.exists_live hr
    exact ⟨v, Nat.lt_succ_of_lt hv, Nat.ne_of_lt hv, hc⟩
  · obtain ⟨hnames, hleft⟩ := h.names.forget (F.cells idx).coord
    refine ⟨hnames, fun name coord hr => ?_⟩
    obtain ⟨hr, hne⟩ := (hleft name coord).mp hr
    obtain ⟨v, hv, hc⟩ := h.exists_live hr
    refine ⟨hr, v, by rwa [evict_cellCount], ?_, hc⟩
    rintro rfl
    exact hne hc.symm

/-- A victim with a name leaves room for another. -/
theorem Tidy.evict_room {name : CName} {t : ℕ}
    (hr : Registered F.registry name (F.cells t).coord) :
    (evict F t).registry.count < fabricMaxCells := by
  have hfind := (h.names.resolveName_iff name _).mpr hr
  unfold gooniesResolveNameByCoord at hfind
  obtain ⟨i, hi, -⟩ := Option.map_eq_some_iff.mp hfind
  have hpos := ((h.names.coords.keyed.findCoord_iff _ i).mp hi).1
  have hpos : i < F.registry.count := hpos
  have hle := h.names.names.count_le
  rw [evict_registry_count, countWithout, hi, Option.isSome_some, if_pos rfl]
  omega

theorem Tidy.resolveName_free (hfree : CoordFree F coord) :
    gooniesResolveNameByCoord F.registry coord = none := by
  cases hr : gooniesResolveNameByCoord F.registry coord with
  | none => rfl
  | some s => exact absurd hfree (h.live s coord ((h.names.resolveName_iff s coord).mp hr))

theorem Tidy.oneName_free (hfree : CoordFree F coord) (s : CName) : OneName F.registry s coord := by
  intro s' hs'
  rw [h.resolveName_free hfree] at hs'
  cases hs'

theorem Tidy.allocated (hone : ∀ s, name = some s → OneName F.registry s coord)
    (hF' : FabricSound F') (ha : Allocated atlas F name coord sys F') : Tidy F' := by
  cases ha with
  | same => exact h
  | named v hv hc =>
    obtain ⟨hnames, hfrom⟩ := h.names.withName atlas hone sys
    refine ⟨hF', hnames, fun name' coord' hr hfree => ?_⟩
    rcases hfrom name' coord' hr with hr | rfl
    · exact h.live name' coord' hr hfree
    · exact hfree v hv hc
  | woven idx claimed hclaim hfree hok =>
    obtain ⟨hsound, -⟩ := h.fabric.claim hclaim
    obtain ⟨hnames, hleft⟩ := h.claim hclaim
    have hnone : ∀ s, name = some s → OneName claimed.registry s coord := by
      intro s _ s' hs'
      exact absurd hfree (h.live s' coord (hleft s' coord ((hnames.resolveName_iff _ _).mp hs')).1)
    obtain ⟨hnames', hfrom⟩ := hnames.withName atlas hnone sys
    refine ⟨hF', hnames', fun name' coord' hr hfree' => ?_⟩
    rcases hfrom name' coord' hr with hr | rfl
    · obtain ⟨-, v, hv, hne, hc⟩ := hleft name' coord' hr
      refine hfree' v hv ?_
      simpa [publish, hne, hsound.cells] using hc
    · exact hfree' idx hsound.idx_lt (by simp [publish, freshCell])

theorem Tidy.write {idx : ℕ} {cell : Cell} (hc : cell.coord = (F.cells idx).coord) :
    Tidy { F with cells := Function.update F.cells idx cell } := by
  refine ⟨h.fabric.write hc, h.names, fun name coord hr hfree => h.live name coord hr ?_⟩
  intro v hv
  have hne := hfree v hv
  rwa [update_coord hc v] at hne

theorem Tidy.allocLocked (hone : ∀ s, name = some s → OneName F.registry s coord)
    (hsafe : CoordFree F coord → EvictionSafe atlas F name sys) (ret : Bool) :
    Tidy (allocLocked atlas true F name coord sys ret).2 := by
  refine h.allocated hone ?_ (h.fabric.allocated ret hsafe)
  cases hget : getCellByCoord F coord with
  | some v => exact h.fabric.allocLocked_occupied hget
  | none =>
    have hfree := (h.fabric.getCell_none_iff coord).mp hget
    exact (h.fabric.allocLocked_free hfree).1 (hsafe hfree)

end Tidy

/-- Every boot leaves the tables in order. -/
theorem Consistent.tidy {asg : Assignment} {F : Fabric} (h : Consistent asg F) : Tidy F := by
  have hlive : ∀ i < F.registry.count, ∃ v < F.cellCount + 1, v ≠ F.cellCount ∧
      (F.cells v).coord = (F.registry.entries i).coord := by
    intro i hi
    obtain ⟨v, hv, hc⟩ := h.live i hi
    exact ⟨v, Nat.lt_succ_of_lt hv, Nat.ne_of_lt hv, hc⟩
  have hcount := registry_count_lt h.names (Nat.lt_succ_self _) hlive
  have hle : F.registry.count ≤ fabricMaxCells :=
    (Nat.le_of_lt_succ hcount).trans h.fabric.count_le
  refine ⟨h.fabric, ⟨⟨h.names.indexed.keyed .coord, ?_, ?_⟩, ?_⟩, ?_⟩
  · rwa [h.names.capacity]
  · rw [h.names.capacity, h.names.buckets]
    decide
  · exact ⟨h.names.indexed.bounded, h.names.buckets, hle, h.names.indexed.byName⟩
  · rintro name coord ⟨i, hi, he⟩ hfree
    obtain ⟨v, hv, hc⟩ := h.live i hi
    exact hfree v hv (hc.trans (congrArg RegistryEntry.coord he))

theorem fabricInit_tidy (atlas : Atlas) {F : Fabric} (cold purpose : Bool)
    (h : cold = true ∨ FabricSound F) : Tidy (fabricInit atlas cold purpose F) :=
  (fabricInit_consistent seedAssignment atlas cold (fun _ => by decide) h).tidy

end ReflexOS.Goose
