import ReflexOS.Types
import Mathlib.Data.List.Basic

set_option autoImplicit false

/-!
# The memory map of a VM

`reflex_vm_mmu_add_region` is the only way a region enters the map, so what it checks is
carried by the map itself: no region wraps and no two overlap.
-/
namespace ReflexOS.VmMmu

inductive MemType where
  | privateMem
  | sharedMem
deriving DecidableEq, Repr

/-- `buffer` is a host pointer, counted in words; 0 is NULL. -/
structure Region where
  buffer : ℕ
  length : ℕ
  type : MemType
  baseAddr : ℕ
  fits : baseAddr + length < 2 ^ 32

/-- The overlap test of the source, between a new region and an existing one. -/
def Region.overlaps (new existing : Region) : Bool :=
  decide (new.baseAddr < existing.baseAddr + existing.length) &&
    decide (existing.baseAddr < new.baseAddr + new.length)

def maxRegions : ℕ := 4

structure Mmu where
  regions : List Region
  count_le : regions.length ≤ maxRegions
  disjoint : regions.Pairwise (fun r s => s.overlaps r = false)

def mmuInit : Mmu := ⟨[], Nat.zero_le _, .nil⟩

def mmuAddRegion (mmu : Mmu) (buffer length : ℕ) (type : MemType) (base : ℕ) :
    Except Err Mmu :=
  if buffer = 0 then .error Err.invalidArg
  else if hc : mmu.regions.length < maxRegions then
    if hf : base + length < 2 ^ 32 then
      let new : Region := ⟨buffer, length, type, base, hf⟩
      if ho : mmu.regions.any new.overlaps = true then .error Err.invalidState
      else .ok
        { regions := mmu.regions ++ [new]
          count_le := by rw [List.length_append]; exact hc
          disjoint := by
            simp only [List.any_eq_true, not_exists, not_and, Bool.not_eq_true] at ho
            rw [List.pairwise_append]
            exact ⟨mmu.disjoint, List.pairwise_singleton _ _,
              fun r hr s hs => by rw [List.mem_singleton.mp hs]; exact ho r hr⟩ }
    else .error Err.invalidSize
  else .error Err.noMem

theorem addRegion_error {mmu : Mmu} {buffer length base : ℕ} {type : MemType} {e : Err}
    (h : mmuAddRegion mmu buffer length type base = .error e) : e ≠ Err.ok := by
  unfold mmuAddRegion at h
  split at h
  · cases h
    decide
  split at h
  · split at h
    · dsimp only at h
      split at h <;> cases h
      decide
    · cases h
      decide
  · cases h
    decide

def Region.contains (r : Region) (addr : ℕ) : Bool :=
  decide (r.baseAddr ≤ addr) && decide (addr < r.baseAddr + r.length)

/-- The host pointer of a VM address, from the first region that holds it. -/
def mmuTranslate (mmu : Mmu) (addr : ℕ) : Except Err ℕ :=
  match mmu.regions.find? (fun r => r.contains addr) with
  | some r => .ok (r.buffer + (addr - r.baseAddr))
  | none => .error Err.notFound

def Mapped (mmu : Mmu) : Set ℕ := { addr | ∃ p, mmuTranslate mmu addr = .ok p }

/-- No two regions share host words. -/
def BuffersDisjoint (mmu : Mmu) : Prop :=
  mmu.regions.Pairwise (fun r s =>
    r.buffer + r.length ≤ s.buffer ∨ s.buffer + s.length ≤ r.buffer)

theorem contains_iff (r : Region) (addr : ℕ) :
    r.contains addr = true ↔ r.baseAddr ≤ addr ∧ addr < r.baseAddr + r.length := by
  simp [Region.contains]

theorem translate_eq_ok {mmu : Mmu} {addr p : ℕ} (h : mmuTranslate mmu addr = .ok p) :
    ∃ r ∈ mmu.regions, r.contains addr = true ∧ p = r.buffer + (addr - r.baseAddr) := by
  unfold mmuTranslate at h
  cases hr : mmu.regions.find? (fun r => r.contains addr) with
  | none => simp [hr] at h
  | some r =>
    simp only [hr, Except.ok.injEq] at h
    exact ⟨r, List.mem_of_find?_eq_some hr, by simpa using List.find?_some hr, h.symm⟩

/-- With disjoint buffers, different addresses sit in different host words. -/
theorem translate_injective {mmu : Mmu} (hd : BuffersDisjoint mmu) {a b p : ℕ}
    (ha : mmuTranslate mmu a = .ok p) (hb : mmuTranslate mmu b = .ok p) : a = b := by
  obtain ⟨r, hr, hca, hpa⟩ := translate_eq_ok ha
  obtain ⟨s, hs, hcb, hpb⟩ := translate_eq_ok hb
  rw [contains_iff] at hca hcb
  obtain ⟨i, hi, rfl⟩ := List.mem_iff_getElem.mp hr
  obtain ⟨j, hj, rfl⟩ := List.mem_iff_getElem.mp hs
  rw [BuffersDisjoint, List.pairwise_iff_getElem] at hd
  rcases Nat.lt_trichotomy i j with hij | rfl | hij
  · have := hd i j hi hj hij
    omega
  · omega
  · have := hd j i hj hi hij
    omega

end ReflexOS.VmMmu
