import ReflexOS.GooseLattice
import ReflexOS.Runs

set_option autoImplicit false

/-!
# The coordinate index as a map

A table run beside the map from coordinates to cells it stands for. A cell may be rewritten
while it is not indexed; an indexed one keeps its coordinate.
-/
namespace ReflexOS.Goose
open VmTernary LinearProbing Runs

structure LatticeTable where
  slots : Slots
  cells : ℕ → Cell
  count : ℕ

inductive LatticeOp where
  | cell (idx : ℕ) (cell : Cell)
  | grow
  | insert (coord : Tryte9) (idx : ℕ)
  | remove (coord : Tryte9)

inductive LatticeStep (buckets : ℕ) : LatticeTable → LatticeOp → LatticeTable → Prop where
  | cell (T : LatticeTable) (idx : ℕ) (c : Cell)
      (h : Holds buckets T.slots idx → c.coord = (T.cells idx).coord) :
      LatticeStep buckets T (.cell idx c) { T with cells := Function.update T.cells idx c }
  | grow (T : LatticeTable) : LatticeStep buckets T .grow { T with count := T.count + 1 }
  | insert (T : LatticeTable) (coord : Tryte9) (idx : ℕ) (hlt : idx < T.count)
      (hc : (T.cells idx).coord = coord) :
      LatticeStep buckets T (.insert coord idx)
        { T with slots := (latticeInsert buckets T.slots T.cells T.count coord idx).1 }
  | remove (T : LatticeTable) (coord : Tryte9) :
      LatticeStep buckets T (.remove coord)
        { T with slots := latticeRemove buckets T.slots T.cells T.count coord }

/-- The finite map the index stands for. -/
abbrev CoordMap := Tryte9 → Option ℕ

def mapStep (M : CoordMap) : LatticeOp → CoordMap
  | .insert coord idx => Function.update M coord (some idx)
  | .remove coord => Function.update M coord none
  | _ => M

def mapAfter (ops : List LatticeOp) : CoordMap := ops.foldl mapStep fun _ => none

def storedCoords (M : CoordMap) : Set Tryte9 := {c | (M c).isSome}

def storedCells (M : CoordMap) : Set ℕ := {v | ∃ c, M c = some v}

theorem cells_none : {v : ℕ | (none : Option ℕ) = some v} = ∅ := by
  ext v
  simp

theorem cells_some (u : ℕ) : {v : ℕ | some u = some v} = {u} := by
  ext v
  simp [eq_comm]

/-- The table indexes the cells of the map, each under its coordinate. -/
structure Represents (buckets : ℕ) (T : LatticeTable) (M : CoordMap) : Prop where
  index : LatticeIndexes buckets T.slots T.cells (storedCells M)
  coord : ∀ c v, M c = some v → v < T.count ∧ (T.cells v).coord = c

namespace Represents

variable {buckets : ℕ} {T T' : LatticeTable} {M : CoordMap}

theorem clear (cells : ℕ → Cell) (count : ℕ) :
    Represents buckets ⟨latticeClear, cells, count⟩ fun _ => none where
  index := by
    have hnone : storedCells (fun _ => none) = ∅ := by
      ext v
      simp [storedCells]
    rw [hnone]
    exact latticeIndexes_clear
  coord c v h := nomatch h

variable (h : Represents buckets T M)
include h

theorem live : ∀ v ∈ storedCells M, v < T.count := fun v ⟨c, hv⟩ => (h.coord c v hv).1

theorem mem_iff (v : ℕ) : v ∈ storedCells M ↔ M (T.cells v).coord = some v := by
  constructor
  · rintro ⟨c, hv⟩
    rw [(h.coord c v hv).2]
    exact hv
  · exact fun hv => ⟨_, hv⟩

theorem storedCoords_eq : storedCoords M = (fun v => (T.cells v).coord) '' storedCells M := by
  ext c
  constructor
  · intro hc
    obtain ⟨v, hv⟩ := Option.isSome_iff_exists.mp hc
    exact ⟨v, ⟨c, hv⟩, (h.coord c v hv).2⟩
  · rintro ⟨v, ⟨c', hv⟩, rfl⟩
    change (M (T.cells v).coord).isSome
    rw [(h.coord c' v hv).2, hv]
    rfl

/-- A coordinate that is mapped anew gives up its cell. -/
theorem storedCells_update (coord : Tryte9) (o : Option ℕ) :
    storedCells (Function.update M coord o) =
      storedCells M \ {v | M coord = some v} ∪ {v | o = some v} := by
  ext v
  constructor
  · rintro ⟨c, hv⟩
    by_cases hcc : c = coord
    · subst hcc
      rw [Function.update_self] at hv
      exact .inr hv
    · rw [Function.update_of_ne hcc] at hv
      refine .inl ⟨⟨c, hv⟩, fun hvu => hcc ?_⟩
      exact (h.coord c v hv).2.symm.trans (h.coord coord v hvu).2
  · rintro (⟨⟨c, hv⟩, hne⟩ | hv)
    · have hcc : c ≠ coord := by
        rintro rfl
        exact hne hv
      exact ⟨c, by rw [Function.update_of_ne hcc, hv]⟩
    · exact ⟨coord, (Function.update_self _ _ _).trans hv⟩

theorem coord_update {coord : Tryte9} {o : Option ℕ}
    (ho : ∀ v, o = some v → v < T.count ∧ (T.cells v).coord = coord) (c : Tryte9) (v : ℕ)
    (hv : Function.update M coord o c = some v) : v < T.count ∧ (T.cells v).coord = c := by
  by_cases hcc : c = coord
  · subst hcc
    rw [Function.update_self] at hv
    exact ho v hv
  · rw [Function.update_of_ne hcc] at hv
    exact h.coord c v hv

theorem ne_of_notMem {c : Tryte9} (hc : M c = none) : ∀ w ∈ storedCells M, (T.cells w).coord ≠ c := by
  intro w hw heq
  rw [h.mem_iff, heq, hc] at hw
  cases hw

variable (hfew : (storedCoords M).ncard < buckets)
include hfew

theorem exists_empty : ∃ e < buckets, T.slots e = none :=
  Indexes.exists_empty h.index (h.storedCoords_eq ▸ hfew)

theorem find (coord : Tryte9) : latticeFind buckets T.slots T.cells T.count coord = M coord := by
  have hlt := latticeHash_lt (Nat.zero_lt_of_lt hfew) coord
  cases hm : M coord with
  | none => exact (Indexes.find_none_iff h.index hlt (slotMatches_iff h.live)).mpr (h.ne_of_notMem hm)
  | some v =>
    exact (Indexes.find_iff h.index hlt (slotMatches_iff h.live) v).mpr
      ⟨⟨coord, hm⟩, (h.coord coord v hm).2⟩

theorem insert {coord : Tryte9} {idx : ℕ} (hidx : idx < T.count)
    (hc : (T.cells idx).coord = coord) :
    Represents buckets
      { T with slots := (latticeInsert buckets T.slots T.cells T.count coord idx).1 }
      (Function.update M coord (some idx)) := by
  have hlt := latticeHash_lt (Nat.zero_lt_of_lt hfew) coord
  have hp := @slotMatches_iff T.count T.cells (storedCells M) coord h.live
  refine ⟨?_, h.coord_update fun v hv => Option.some.inj hv ▸ ⟨hidx, hc⟩⟩
  cases hm : M coord with
  | none =>
    have hnot : idx ∉ storedCells M := fun hmem => h.ne_of_notMem hm idx hmem hc
    rw [h.storedCells_update, hm, cells_none, cells_some, Set.sdiff_empty]
    exact Indexes.insert h.index hlt hp hc hnot (h.ne_of_notMem hm) (h.exists_empty hfew)
  | some u =>
    obtain ⟨-, hu⟩ := h.coord coord u hm
    by_cases hidxu : idx = u
    · -- The coordinate is mapped to this cell already.
      subst hidxu
      have hsame : Function.update M coord (some idx) = M := by
        rw [← hm, Function.update_eq_self]
      rw [hsame]
      subst hc
      exact Indexes.insert_self h.index ⟨_, hm⟩ hlt hp
    · have hnot : idx ∉ storedCells M := by
        rw [h.mem_iff, hc, hm]
        exact fun he => hidxu (Option.some.inj he).symm
      rw [h.storedCells_update, hm, cells_some, cells_some]
      exact Indexes.replace h.index hlt hp ⟨coord, hm⟩ hu hc hnot

theorem remove (coord : Tryte9) :
    Represents buckets
      { T with slots := latticeRemove buckets T.slots T.cells T.count coord }
      (Function.update M coord none) := by
  have hlt := latticeHash_lt (Nat.zero_lt_of_lt hfew) coord
  have hp := @slotMatches_iff T.count T.cells (storedCells M) coord h.live
  refine ⟨?_, h.coord_update nofun⟩
  cases hm : M coord with
  | none =>
    have hsame : Function.update M coord none = M := by
      rw [← hm, Function.update_eq_self]
    rw [hsame]
    have habsent : latticeRemove buckets T.slots T.cells T.count coord = T.slots := by
      refine remove_absent (fun v hv => ?_) hlt
      have hS := (h.index.holds v).mp hv
      simpa using mt (hp v hS).mp (h.ne_of_notMem hm v hS)
    rw [habsent]
    exact h.index
  | some u =>
    rw [h.storedCells_update, hm, cells_none, cells_some, Set.union_empty]
    exact Indexes.remove h.index hlt hp ⟨coord, hm⟩ (h.coord coord u hm).2
      (fun w hw => by simpa using h.live w hw) (h.exists_empty hfew)

theorem step {op : LatticeOp} (hstep : LatticeStep buckets T op T') :
    Represents buckets T' (mapStep M op) := by
  cases hstep with
  | cell idx c hc =>
    have hkeep : ∀ v ∈ storedCells M, (Function.update T.cells idx c v).coord = (T.cells v).coord := by
      intro v hv
      by_cases hidx : v = idx
      · subst hidx
        rw [Function.update_self]
        exact hc ((h.index.holds v).mpr hv)
      · rw [Function.update_of_ne hidx]
    refine ⟨Indexes.congr h.index hkeep, fun c' v hv => ?_⟩
    obtain ⟨hlt, hcoord⟩ := h.coord c' v hv
    exact ⟨hlt, (hkeep v ⟨c', hv⟩).trans hcoord⟩
  | grow =>
    exact ⟨h.index, fun c v hv => ⟨Nat.lt_succ_of_lt (h.coord c v hv).1, (h.coord c v hv).2⟩⟩
  | insert coord idx hlt hc => exact h.insert hfew hlt hc
  | remove coord => exact h.remove hfew coord

omit hfew in
theorem run {ops : List LatticeOp} (hrun : Run (LatticeStep buckets) T ops T')
    (hroom : ∀ pre, pre <+: ops → (storedCoords (pre.foldl mapStep M)).ncard < buckets) :
    Represents buckets T' (ops.foldl mapStep M) := by
  induction hrun generalizing M with
  | nil T => exact h
  | cons hstep _ ih =>
    refine ih (h.step (hroom [] List.nil_prefix) hstep) fun pre hpre => ?_
    exact hroom (_ :: pre) ((List.prefix_cons_inj _).mpr hpre)

end Represents

/-- While there is room, a lookup is a lookup in the map. -/
theorem lattice_refines_map {buckets : ℕ} {cells : ℕ → Cell} {count : ℕ} {ops : List LatticeOp}
    {T : LatticeTable} (hrun : Run (LatticeStep buckets) ⟨latticeClear, cells, count⟩ ops T)
    (hroom : ∀ pre, pre <+: ops → (storedCoords (mapAfter pre)).ncard < buckets) (coord : Tryte9) :
    latticeFind buckets T.slots T.cells T.count coord = mapAfter ops coord :=
  ((Represents.clear cells count).run hrun hroom).find (hroom ops (List.prefix_refl ops)) coord

theorem lattice_refines_map_one :
    latticeFind 2 (latticeInsert 2 latticeClear (fun _ => zeroCell) 1 zeroCoord 0).1
      (fun _ => zeroCell) 1 zeroCoord = some 0 := by
  refine @lattice_refines_map 2 (fun _ => zeroCell) 1 [.insert zeroCoord 0] _
    (.single (.insert _ _ _ Nat.one_pos rfl)) (fun pre hpre => ?_) zeroCoord
  have hsub : storedCoords (mapAfter pre) ⊆ {zeroCoord} := by
    intro c hc
    rcases pre with _ | ⟨op, rest⟩
    · cases hc
    · obtain ⟨hop, hrest⟩ := List.cons_prefix_cons.mp hpre
      rw [List.prefix_nil.mp hrest, hop] at hc
      by_contra hne
      change (Function.update (fun _ => none) zeroCoord (some 0) c).isSome = true at hc
      rw [Function.update_of_ne hne] at hc
      cases hc
  exact Nat.lt_succ_of_le ((Set.ncard_le_ncard hsub).trans (Set.ncard_singleton _).le)

end ReflexOS.Goose
