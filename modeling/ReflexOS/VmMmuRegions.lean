import ReflexOS.Runs
import ReflexOS.VmMmu
import Mathlib.Order.CompletePartialOrder
import Mathlib.Order.Interval.Set.Disjoint

set_option autoImplicit false

/-!
# Runs of region requests

The map as the C structs hold it, with every sum taken in 32 bits. It represents a map that
carries its invariant, so no sum that decides anything wraps.
-/
namespace ReflexOS.VmMmu
open Runs

/-- `reflex_mem_region_t`; `length` is a `size_t`. -/
structure MemRegion where
  buffer : ℕ
  length : ℕ
  type : MemType
  baseAddr : UInt32

structure RawMmu where
  regions : ℕ → MemRegion
  count : ℕ

def rawMmuInit : RawMmu := ⟨fun _ => ⟨0, 0, .privateMem, 0⟩, 0⟩

namespace MemRegion

/-- The end of a region, as `uint32_t` has it. -/
def stop (r : MemRegion) : UInt32 := r.baseAddr + UInt32.ofNat r.length

def overlaps (new existing : MemRegion) : Bool :=
  decide (new.baseAddr < existing.stop) && decide (existing.baseAddr < new.stop)

def contains (r : MemRegion) (vmAddr : UInt32) : Bool :=
  decide (r.baseAddr ≤ vmAddr) && decide (vmAddr < r.stop)

/-- The addresses a region stands for, with nothing wrapped. -/
def addresses (r : MemRegion) : Set ℕ :=
  Set.Ico r.baseAddr.toNat (r.baseAddr.toNat + r.length)

end MemRegion

/-- The entries the loops run over. -/
def RawMmu.used (mmu : RawMmu) : List MemRegion := (List.range mmu.count).map mmu.regions

/-- `reflex_vm_mmu_add_region`. -/
def RawMmu.addRegion (mmu : RawMmu) (new : MemRegion) : Err × RawMmu :=
  if new.buffer = 0 then (Err.invalidArg, mmu)
  else if maxRegions ≤ mmu.count then (Err.noMem, mmu)
  else if (0xFFFFFFFF - new.baseAddr).toNat < new.length then (Err.invalidSize, mmu)
  else if mmu.used.any new.overlaps then (Err.invalidState, mmu)
  else (Err.ok, ⟨Function.update mmu.regions mmu.count new, mmu.count + 1⟩)

/-- `reflex_vm_mmu_translate`. -/
def RawMmu.translate (mmu : RawMmu) (vmAddr : UInt32) : Except Err ℕ :=
  match mmu.used.find? fun r => r.contains vmAddr with
  | some r => .ok (r.buffer + (vmAddr - r.baseAddr).toNat)
  | none => .error Err.notFound

/-- A region of the map as the struct holds it. -/
def Region.raw (r : Region) : MemRegion := ⟨r.buffer, r.length, r.type, UInt32.ofNat r.baseAddr⟩

def Represents (raw : RawMmu) (mmu : Mmu) : Prop := raw.used = mmu.regions.map Region.raw

section Fields

variable (r : Region)

theorem raw_baseAddr : r.raw.baseAddr.toNat = r.baseAddr :=
  UInt32.toNat_ofNat_of_lt' (by have := r.fits; simp only [UInt32.size]; omega)

theorem raw_stop : r.raw.stop.toNat = r.baseAddr + r.length := by
  have hfits := r.fits
  rw [MemRegion.stop, UInt32.toNat_add, raw_baseAddr, UInt32.toNat_ofNat',
    show r.raw.length = r.length from rfl]
  omega

theorem raw_addresses : r.raw.addresses = Set.Ico r.baseAddr (r.baseAddr + r.length) := by
  rw [MemRegion.addresses, raw_baseAddr]
  rfl

theorem raw_overlaps (s : Region) : r.raw.overlaps s.raw = r.overlaps s := by
  simp only [MemRegion.overlaps, Region.overlaps, UInt32.lt_iff_toNat_lt, raw_baseAddr, raw_stop]

theorem raw_contains (vmAddr : UInt32) : r.raw.contains vmAddr = r.contains vmAddr.toNat := by
  simp only [MemRegion.contains, Region.contains, UInt32.lt_iff_toNat_lt, UInt32.le_iff_toNat_le,
    raw_baseAddr, raw_stop]

theorem contains_iff_mem (vmAddr : UInt32) :
    r.raw.contains vmAddr = true ↔ vmAddr.toNat ∈ r.raw.addresses := by
  rw [raw_contains, contains_iff, raw_addresses, Set.mem_Ico]

theorem offset_eq {vmAddr : UInt32} (h : r.raw.contains vmAddr = true) :
    (vmAddr - r.raw.baseAddr).toNat = vmAddr.toNat - r.baseAddr := by
  rw [raw_contains, contains_iff] at h
  rw [UInt32.toNat_sub_of_le, raw_baseAddr]
  rw [UInt32.le_iff_toNat_le, raw_baseAddr]
  exact h.1

theorem disjoint_of_apart {r s : Region} (h : s.overlaps r = false) :
    Disjoint r.raw.addresses s.raw.addresses := by
  rw [raw_addresses, raw_addresses, Set.Ico_disjoint_Ico]
  simp only [Region.overlaps, Bool.and_eq_false_iff, decide_eq_false_iff_not, not_lt] at h
  omega

end Fields

theorem represents_init : Represents rawMmuInit mmuInit := rfl

section Represents

variable {raw : RawMmu} {mmu : Mmu} (h : Represents raw mmu)
include h

theorem Represents.count : raw.count = mmu.regions.length := by
  have hlen := congrArg List.length h
  simpa only [RawMmu.used, List.length_map, List.length_range] using hlen

theorem Represents.translate (vmAddr : UInt32) :
    raw.translate vmAddr = mmuTranslate mmu vmAddr.toNat := by
  unfold RawMmu.translate mmuTranslate
  rw [show raw.used = mmu.regions.map Region.raw from h, List.find?_map]
  have hcongr : ((fun r : MemRegion => r.contains vmAddr) ∘ Region.raw) =
      fun r : Region => r.contains vmAddr.toNat := funext fun r => raw_contains r vmAddr
  rw [hcongr]
  cases hfind : mmu.regions.find? fun r => r.contains vmAddr.toNat with
  | none => rfl
  | some r =>
    have hc : r.raw.contains vmAddr = true := by
      rw [raw_contains]
      simpa only using List.find?_some hfind
    exact congrArg (fun i => Except.ok (r.buffer + i)) (offset_eq r hc)

/-- The struct answers and changes as the map does. -/
theorem Represents.addRegion (new : MemRegion) :
    (∃ e, e ≠ Err.ok ∧ raw.addRegion new = (e, raw)) ∨
      ∃ raw' mmu', raw.addRegion new = (Err.ok, raw') ∧
        mmuAddRegion mmu new.buffer new.length new.type new.baseAddr.toNat = .ok mmu' ∧
        Represents raw' mmu' ∧ raw'.used = raw.used ++ [new] := by
  have hcount := h.count
  unfold RawMmu.addRegion
  split_ifs with hnull hfull hwrap hover
  · exact .inl ⟨_, by decide, rfl⟩
  · exact .inl ⟨_, by decide, rfl⟩
  · exact .inl ⟨_, by decide, rfl⟩
  · exact .inl ⟨_, by decide, rfl⟩
  have hbase := new.baseAddr.toNat_lt
  have hfits : new.baseAddr.toNat + new.length < 2 ^ 32 := by
    rw [UInt32.toNat_sub_of_le _ _ (by rw [UInt32.le_iff_toNat_le]; exact Nat.le_of_lt_succ hbase)]
      at hwrap
    simp only [UInt32.reduceToNat] at hwrap
    omega
  obtain ⟨r, hr⟩ : ∃ r : Region,
      r = ⟨new.buffer, new.length, new.type, new.baseAddr.toNat, hfits⟩ := ⟨_, rfl⟩
  have hraw : r.raw = new := by
    rw [hr, Region.raw, UInt32.ofNat_toNat]
  have hapart : ¬ mmu.regions.any r.overlaps = true := by
    intro hany
    apply hover
    rw [show raw.used = mmu.regions.map Region.raw from h, List.any_map]
    rw [← hraw]
    simpa only [Function.comp_def, raw_overlaps] using hany
  have hused : (RawMmu.used ⟨Function.update raw.regions raw.count new, raw.count + 1⟩) =
      raw.used ++ [new] := by
    unfold RawMmu.used
    dsimp only
    rw [List.range_succ, List.map_append, List.map_singleton, Function.update_self]
    congr 1
    apply List.map_congr_left
    intro i hi
    exact Function.update_of_ne (by rw [List.mem_range] at hi; omega) _ _
  obtain ⟨mmu', hadd, hregions⟩ : ∃ mmu',
      mmuAddRegion mmu new.buffer new.length new.type new.baseAddr.toNat = .ok mmu' ∧
        mmu'.regions = mmu.regions ++ [r] := by
    unfold mmuAddRegion
    rw [if_neg hnull, dif_pos (by omega), dif_pos hfits]
    dsimp only
    rw [dif_neg (hr ▸ hapart)]
    exact ⟨_, rfl, congrArg (fun s => mmu.regions ++ [s]) hr.symm⟩
  refine .inr ⟨_, mmu', rfl, hadd, ?_, hused⟩
  rw [Represents, hused, hregions, show raw.used = mmu.regions.map Region.raw from h,
    List.map_append, List.map_singleton, hraw]

end Represents

/-- The map and the regions it accepted, in order. -/
structure Mapping where
  mmu : RawMmu
  accepted : List MemRegion

def Mapping.perform (M : Mapping) (new : MemRegion) : Mapping :=
  let r := M.mmu.addRegion new
  ⟨r.2, if r.1 = Err.ok then M.accepted ++ [new] else M.accepted⟩

def AddStep (M : Mapping) (new : MemRegion) (M' : Mapping) : Prop := M' = M.perform new

/-- What holds after any requests. -/
structure Mapping.Sound (M : Mapping) : Prop where
  kept : M.mmu.used = M.accepted
  unwrapped : ∀ r ∈ M.accepted, r.baseAddr.toNat + r.length < 2 ^ 32
  nonempty_iff : ∀ r ∈ M.accepted, r.addresses.Nonempty ↔ 0 < r.length
  disjoint : M.accepted.Pairwise fun r s => Disjoint r.addresses s.addresses
  rejected : ∀ new, (M.mmu.addRegion new).1 ≠ Err.ok → (M.mmu.addRegion new).2 = M.mmu
  translated_iff : ∀ vmAddr : UInt32, (∃ p, M.mmu.translate vmAddr = .ok p) ↔
    ∃! i : Fin M.accepted.length, vmAddr.toNat ∈ (M.accepted.get i).addresses
  translated : ∀ vmAddr : UInt32, ∀ r ∈ M.accepted, vmAddr.toNat ∈ r.addresses →
    M.mmu.translate vmAddr = .ok (r.buffer + (vmAddr.toNat - r.baseAddr.toNat))

/-- Among disjoint regions one at most holds an address. -/
theorem holder_unique {rs : List MemRegion} {a : ℕ}
    (h : rs.Pairwise fun r s => Disjoint r.addresses s.addresses) {i j : Fin rs.length}
    (hi : a ∈ (rs.get i).addresses) (hj : a ∈ (rs.get j).addresses) : i = j := by
  rw [List.pairwise_iff_getElem] at h
  rcases Nat.lt_trichotomy i j with hij | hij | hij
  · exact absurd hj (Set.disjoint_left.mp (h i j i.isLt j.isLt hij) hi)
  · exact Fin.ext hij
  · exact absurd hi (Set.disjoint_left.mp (h j i j.isLt i.isLt hij) hj)

/-- The structs represent a map, whose regions are the ones accepted. -/
def Mapping.Kept (M : Mapping) : Prop :=
  ∃ mmu : Mmu, Represents M.mmu mmu ∧ M.accepted = mmu.regions.map Region.raw

theorem Mapping.Kept.perform {M : Mapping} (h : M.Kept) (new : MemRegion) :
    (M.perform new).Kept := by
  obtain ⟨mmu, hrep, hacc⟩ := h
  unfold Mapping.perform
  rcases hrep.addRegion new with ⟨e, he, hadd⟩ | ⟨raw', mmu', hadd, -, hrep', hused⟩
  · rw [hadd]
    exact ⟨mmu, hrep, (if_neg he).trans hacc⟩
  · rw [hadd]
    refine ⟨mmu', hrep', ?_⟩
    dsimp only
    rw [if_pos rfl, ← show raw'.used = mmu'.regions.map Region.raw from hrep', hused, hacc,
      show M.mmu.used = mmu.regions.map Region.raw from hrep]

theorem Mapping.Kept.sound {M : Mapping} (h : M.Kept) : M.Sound := by
  obtain ⟨mmu, hrep, hacc⟩ := h
  have hkept : M.mmu.used = M.accepted := hrep.trans hacc.symm
  have hraw : ∀ r ∈ M.accepted, ∃ s : Region, s.raw = r := by
    intro r hr
    rw [hacc, List.mem_map] at hr
    obtain ⟨s, -, rfl⟩ := hr
    exact ⟨s, rfl⟩
  have hcontains : ∀ r ∈ M.accepted, ∀ vmAddr : UInt32,
      r.contains vmAddr = true ↔ vmAddr.toNat ∈ r.addresses := by
    intro r hr vmAddr
    obtain ⟨s, rfl⟩ := hraw r hr
    exact contains_iff_mem s vmAddr
  have hdisjoint : M.accepted.Pairwise fun r s => Disjoint r.addresses s.addresses := by
    rw [hacc, List.pairwise_map]
    exact mmu.disjoint.imp disjoint_of_apart
  have htranslated : ∀ vmAddr : UInt32, ∀ r ∈ M.accepted, vmAddr.toNat ∈ r.addresses →
      M.mmu.translate vmAddr = .ok (r.buffer + (vmAddr.toNat - r.baseAddr.toNat)) := by
    intro vmAddr r hr hmem
    have hc := (hcontains r hr vmAddr).mpr hmem
    unfold RawMmu.translate
    rw [hkept]
    cases hfind : M.accepted.find? fun r => r.contains vmAddr with
    | none =>
      rw [List.find?_eq_none] at hfind
      exact absurd hc (hfind r hr)
    | some s =>
      have hs : s ∈ M.accepted := List.mem_of_find?_eq_some hfind
      have hsc : s.contains vmAddr = true := by simpa only using List.find?_some hfind
      obtain ⟨i, rfl⟩ := List.mem_iff_get.mp hr
      obtain ⟨j, rfl⟩ := List.mem_iff_get.mp hs
      rw [holder_unique hdisjoint ((hcontains _ hs vmAddr).mp hsc) hmem]
      obtain ⟨s, hs⟩ := hraw _ hr
      rw [← hs] at hc ⊢
      rw [raw_baseAddr]
      exact congrArg (fun i => Except.ok (s.raw.buffer + i)) (offset_eq s hc)
  refine ⟨hkept, fun r hr => ?_, fun r _ => ?_, hdisjoint, fun new hno => ?_, fun vmAddr => ?_,
    htranslated⟩
  · obtain ⟨s, rfl⟩ := hraw r hr
    rw [raw_baseAddr]
    exact s.fits
  · rw [MemRegion.addresses, Set.nonempty_Ico]
    omega
  · rcases hrep.addRegion new with ⟨e, -, hadd⟩ | ⟨raw', mmu', hadd, -⟩
    · rw [hadd]
    · rw [hadd] at hno
      exact absurd rfl hno
  · constructor
    · rintro ⟨p, hp⟩
      unfold RawMmu.translate at hp
      rw [hkept] at hp
      split at hp
      next r hfind =>
        have hr : r ∈ M.accepted := List.mem_of_find?_eq_some hfind
        have hc : r.contains vmAddr = true := by simpa only using List.find?_some hfind
        obtain ⟨i, rfl⟩ := List.mem_iff_get.mp hr
        have hmem := (hcontains _ hr vmAddr).mp hc
        exact ⟨i, hmem, fun j hj => holder_unique hdisjoint hj hmem⟩
      next => cases hp
    · rintro ⟨i, hi, -⟩
      exact ⟨_, htranslated vmAddr _ (List.get_mem _ i) hi⟩

/-- After any sequence of requests the accepted regions are apart and each address is translated
by the one region that holds it. -/
theorem regions_sound {news : List MemRegion} {M : Mapping}
    (hrun : Run AddStep ⟨rawMmuInit, []⟩ news M) : M.Sound := by
  refine (hrun.invariant Mapping.Kept ?_ ⟨mmuInit, represents_init, rfl⟩).sound
  rintro M new _ hM rfl
  exact hM.perform new

/-- Two words at the top of the address space. -/
theorem regions_sound_top : (Mapping.perform ⟨rawMmuInit, []⟩
    ⟨64, 2, .sharedMem, 0xFFFFFFFD⟩).Sound :=
  regions_sound (.single rfl)

/-- A region of no words is accepted. -/
theorem region_empty_accepted : ¬ ∀ (news : List MemRegion) (M : Mapping),
    Run AddStep ⟨rawMmuInit, []⟩ news M → ∀ r ∈ M.accepted, r.addresses.Nonempty := by
  intro hall
  have hne := hall [⟨64, 0, .privateMem, 0⟩] _ (.single rfl) ⟨64, 0, .privateMem, 0⟩
    (by simp [Mapping.perform, RawMmu.addRegion, rawMmuInit, RawMmu.used, maxRegions, Err.ok])
  simp [MemRegion.addresses] at hne

end ReflexOS.VmMmu
