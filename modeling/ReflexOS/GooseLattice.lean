import ReflexOS.GooseTypes
import ReflexOS.LinearProbing

set_option autoImplicit false

/-!
# The coordinate index

Open addressing over cell indexes, keyed by the coordinates the cells carry.
-/
namespace ReflexOS.Goose
open VmTernary LinearProbing

/-- Buckets of an index; `none` is the empty marker -1. -/
abbrev Slots := ℕ → Option ℕ

def coordEqual (a b : Tryte9) : Bool := (List.finRange 9).all fun i => decide (a i = b i)

theorem coordEqual_iff (a b : Tryte9) : coordEqual a b = true ↔ a = b := by
  simp [coordEqual, funext_iff]

/-- Base 3 over the nine trits, each shifted into 0..2, in `uint32_t`. -/
def latticeHash (buckets : ℕ) (coord : Tryte9) : ℕ :=
  (coord.toList.foldl (fun hash t => (hash * 3 + u32 (t + 1)) % 2 ^ 32) 0) % buckets

theorem latticeHash_lt {buckets : ℕ} (h : 0 < buckets) (coord : Tryte9) :
    latticeHash buckets coord < buckets := Nat.mod_lt _ h

def latticeClear : Slots := fun _ => none

def slotMatches (cells : ℕ → Cell) (count : ℕ) (coord : Tryte9) (idx : ℕ) : Bool :=
  decide (idx < count) && coordEqual (cells idx).coord coord

def latticeFind (buckets : ℕ) (slots : Slots) (cells : ℕ → Cell) (count : ℕ)
    (coord : Tryte9) : Option ℕ :=
  find buckets slots (slotMatches cells count coord) (latticeHash buckets coord)

/-- The new buckets, and whether there was room. -/
def latticeInsert (buckets : ℕ) (slots : Slots) (cells : ℕ → Cell) (count : ℕ)
    (coord : Tryte9) (idx : ℕ) : Slots × Bool :=
  (insert buckets slots (slotMatches cells count coord) (latticeHash buckets coord) idx,
    (place buckets slots (slotMatches cells count coord) buckets
      (latticeHash buckets coord)).isSome)

def latticeRemove (buckets : ℕ) (slots : Slots) (cells : ℕ → Cell) (count : ℕ)
    (coord : Tryte9) : Slots :=
  remove buckets (fun idx => latticeHash buckets (cells idx).coord)
    (fun idx => decide (idx < count)) slots (slotMatches cells count coord)
    (latticeHash buckets coord)

/-- The buckets index exactly the cells in `S`, and no two of them share a coordinate. -/
def LatticeIndexes (buckets : ℕ) (slots : Slots) (cells : ℕ → Cell) (S : Set ℕ) : Prop :=
  Indexes buckets (fun idx => (cells idx).coord) (latticeHash buckets) slots S

section Index

variable {buckets count : ℕ} {slots : Slots} {cells : ℕ → Cell} {S : Set ℕ} {coord : Tryte9}

theorem slotMatches_iff (hS : ∀ v ∈ S, v < count) :
    ∀ v ∈ S, slotMatches cells count coord v = true ↔ (cells v).coord = coord := by
  intro v hv
  simp [slotMatches, hS v hv, coordEqual_iff]

theorem latticeIndexes_clear : LatticeIndexes buckets latticeClear cells ∅ := indexes_empty

variable (h : LatticeIndexes buckets slots cells S) (hS : ∀ v ∈ S, v < count)
  (hb : count < buckets)
include h hS hb

theorem LatticeIndexes.exists_empty : ∃ e < buckets, slots e = none :=
  LinearProbing.exists_empty h.probed.inj (fun v hv => hS v ((h.holds v).mp hv)) hb

theorem LatticeIndexes.find_iff (v : ℕ) :
    latticeFind buckets slots cells count coord = some v ↔ v ∈ S ∧ (cells v).coord = coord :=
  Indexes.find_iff h (latticeHash_lt (by omega) coord) (slotMatches_iff hS) v

theorem LatticeIndexes.find_none_iff :
    latticeFind buckets slots cells count coord = none ↔ ∀ v ∈ S, (cells v).coord ≠ coord :=
  Indexes.find_none_iff h (latticeHash_lt (by omega) coord) (slotMatches_iff hS)

theorem LatticeIndexes.insert {v : ℕ} (hv : v ∉ S) (hc : (cells v).coord = coord)
    (hno : ∀ w ∈ S, (cells w).coord ≠ coord) :
    LatticeIndexes buckets (latticeInsert buckets slots cells count coord v).1 cells (S ∪ {v}) :=
  Indexes.insert h (latticeHash_lt (by omega) coord) (slotMatches_iff hS) hc hv hno
    (h.exists_empty hS hb)

theorem LatticeIndexes.remove {v : ℕ} (hv : v ∈ S) :
    LatticeIndexes buckets (latticeRemove buckets slots cells count (cells v).coord) cells
      (S \ {v}) :=
  Indexes.remove h (latticeHash_lt (by omega) _) (slotMatches_iff hS) hv rfl
    (fun w hw => by simpa using hS w hw) (h.exists_empty hS hb)

end Index

end ReflexOS.Goose
