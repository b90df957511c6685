import ReflexOS.GooseFabric
import ReflexOS.Runs

set_option autoImplicit false

/-!
# Entries that share a coordinate

The index by coordinate has one bucket for a coordinate, the entry table any number of
entries. While every coordinate is used once, the index finds each entry.
-/
namespace ReflexOS.Goose
open VmTernary LinearProbing Runs

inductive RegistryOp where
  | add (name : CName) (coord : Tryte9)
  | setCoord (idx : ℕ) (coord : Tryte9)
  | removeCoord (coord : Tryte9)

def registryStep (reg : Registry) : RegistryOp → Registry
  | .add name coord => ((registryAdd reg name coord).map Prod.snd).getD reg
  | .setCoord idx coord => registrySetCoord reg idx coord
  | .removeCoord coord => (registryRemoveCoord reg coord).2

def RegistryStep (reg : Registry) (op : RegistryOp) (reg' : Registry) : Prop :=
  reg' = registryStep reg op

/-- No other entry carries the coordinate the call gives to an entry. -/
def Unshared (reg : Registry) : RegistryOp → Prop
  | .add _ coord => ∀ i < reg.count, (reg.entries i).coord ≠ coord
  | .setCoord idx coord => ∀ i < reg.count, i ≠ idx → (reg.entries i).coord ≠ coord
  | .removeCoord _ => True

/-- Removals at a coordinate up to the first that reports nothing. -/
inductive Drained (coord : Tryte9) : Registry → Registry → Prop where
  | stop {reg reg' : Registry} (h : registryRemoveCoord reg coord = (false, reg')) :
      Drained coord reg reg'
  | more {reg reg₁ reg' : Registry} (h : registryRemoveCoord reg coord = (true, reg₁))
      (rest : Drained coord reg₁ reg') : Drained coord reg reg'

def CoordAbsent (reg : Registry) (coord : Tryte9) : Prop :=
  ∀ i < reg.count, (reg.entries i).coord ≠ coord

structure CoordsFindable (reg : Registry) : Prop where
  find : ∀ coord, registryFindCoord reg coord ≠ none ↔ ¬ CoordAbsent reg coord
  drain : ∀ coord, ∃ reg', Drained coord reg reg' ∧ CoordAbsent reg' coord

/-- The index by coordinate is in order and within the room `registryInit` leaves. -/
structure CoordsIndexed (reg : Registry) : Prop where
  keyed : KeyIndexed reg .coord (liveEntries reg)
  count_le : reg.count ≤ reg.capacity
  capacity_lt : reg.capacity < reg.buckets

theorem coordsIndexed_init (entries : ℕ → RegistryEntry) {capacity buckets : ℕ}
    (h : capacity < buckets) : CoordsIndexed (registryInit entries capacity buckets) where
  keyed := (registryInit_indexes entries capacity (Nat.zero_lt_of_lt h)).keyed .coord
  count_le := Nat.zero_le _
  capacity_lt := h

section Step

variable {reg : Registry} {coord : Tryte9}

theorem CoordsIndexed.add (h : CoordsIndexed reg) (name : CName)
    (hnew : CoordAbsent reg coord) : CoordsIndexed (registryStep reg (.add name coord)) := by
  by_cases hcap : reg.capacity ≤ reg.count
  · rw [registryStep, registryAdd, if_pos hcap]
    exact h
  by_cases hlen : registryNameMax ≤ name.length
  · rw [registryStep, registryAdd, if_neg hcap, if_pos hlen]
    exact h
  rw [registryStep, registryAdd_eq coord (by omega) (by omega)]
  have hroom : reg.count + 1 < reg.buckets := by
    have := h.capacity_lt
    omega
  exact ⟨h.keyed.append hroom fun i hi hk => hnew i hi (Key.coord.inj hk),
    Nat.lt_of_not_le hcap, h.capacity_lt⟩

theorem CoordsIndexed.setCoord (h : CoordsIndexed reg) (idx : ℕ)
    (hnew : ∀ i < reg.count, i ≠ idx → (reg.entries i).coord ≠ coord) :
    CoordsIndexed (registryStep reg (.setCoord idx coord)) := by
  change CoordsIndexed (registrySetCoord reg idx coord)
  unfold registrySetCoord
  split
  · exact h
  next hlt =>
  split
  · exact h
  have hidx : idx ∈ liveEntries reg := Nat.lt_of_not_le hlt
  have hunmapped := h.keyed.unindex hidx
  let moved : Registry := { reg with
    byCoord := idxRemove reg reg.byCoord ((reg.entries idx).key .coord) .coord
    entries := Function.update reg.entries idx { reg.entries idx with coord := coord } }
  have hold : ∀ i ∈ liveEntries reg \ {idx}, moved.entries i = reg.entries i :=
    fun i hi => Function.update_of_ne hi.2 _ _
  have hself : (moved.entries idx).key .coord = .coord coord := by
    simp [moved, RegistryEntry.key]
  have hmoved : KeyIndexed moved .coord (liveEntries reg \ {idx}) :=
    ⟨hunmapped.bounded, h.keyed.room,
      hunmapped.indexed.congr fun i hi => congrArg (RegistryEntry.key · .coord) (hold i hi)⟩
  have hinsert := hmoved.indexed.insert (p := entryMatches moved (.coord coord))
    (hmoved.hash_lt (.coord coord)) (fun i hi => entryMatches_coord (hmoved.bounded i hi) coord)
    hself (fun hi => hi.2 rfl)
    (fun i hi hk => by
      rw [hold i hi] at hk
      exact hnew i (hmoved.bounded i hi) hi.2 (Key.coord.inj hk)) hmoved.exists_empty
  have hset : liveEntries reg \ {idx} ∪ {idx} = liveEntries reg :=
    Set.sdiff_union_of_subset (Set.singleton_subset_iff.mpr hidx)
  rw [hset] at hinsert
  exact ⟨⟨fun i hi => hi, h.keyed.room, hinsert⟩, h.count_le, h.capacity_lt⟩

theorem CoordsIndexed.find_iff (h : CoordsIndexed reg) :
    registryFindCoord reg coord ≠ none ↔ ¬ CoordAbsent reg coord := by
  rw [Option.ne_none_iff_exists', CoordAbsent]
  push Not
  exact exists_congr fun i => h.keyed.findCoord_iff coord i

theorem CoordsIndexed.remove_found (h : CoordsIndexed reg) {idx : ℕ}
    (hf : registryFindCoord reg coord = some idx) :
    CoordsIndexed (registryRemoveCoord reg coord).2 ∧
      CoordAbsent (registryRemoveCoord reg coord).2 coord := by
  obtain ⟨hidx, hcoord⟩ := (h.keyed.findCoord_iff coord idx).mp hf
  have hidx : idx < reg.count := hidx
  obtain ⟨hcount, hentries, hbuckets, hcapacity⟩ := registryRemoveCoord_entries hidx hf
  refine ⟨⟨h.keyed.removeCoord hidx hf, ?_, ?_⟩, fun i hi heq => ?_⟩
  · rw [hcount, hcapacity]
    exact (Nat.sub_le _ _).trans h.count_le
  · rw [hcapacity, hbuckets]
    exact h.capacity_lt
  rw [hcount] at hi
  rw [hentries i hi, withoutEntry] at heq
  have honly : ∀ j < reg.count, (reg.entries j).coord = coord → j = idx := fun j hj hc =>
    h.keyed.indexed.distinct j hj idx hidx (by simp [RegistryEntry.key, hc, hcoord])
  split at heq
  · have := honly _ (by omega) heq
    omega
  next hne => exact hne (honly i (by omega) heq)

theorem remove_missing (hf : registryFindCoord reg coord = none) :
    registryRemoveCoord reg coord = (false, reg) := by
  unfold registryRemoveCoord
  split
  · rfl
  · rw [hf]

theorem CoordsIndexed.removeCoord (h : CoordsIndexed reg) :
    CoordsIndexed (registryStep reg (.removeCoord coord)) := by
  change CoordsIndexed (registryRemoveCoord reg coord).2
  cases hf : registryFindCoord reg coord with
  | none => rwa [remove_missing hf]
  | some idx => exact (h.remove_found hf).1

theorem CoordsIndexed.step (h : CoordsIndexed reg) {op : RegistryOp} {reg' : Registry}
    (hs : Guarded Unshared RegistryStep reg op reg') : CoordsIndexed reg' := by
  obtain ⟨hguard, rfl⟩ := hs
  cases op with
  | add name coord => exact h.add name hguard
  | setCoord idx coord => exact h.setCoord idx hguard
  | removeCoord coord => exact h.removeCoord

theorem CoordsIndexed.drain (h : CoordsIndexed reg) (coord : Tryte9) :
    ∃ reg', Drained coord reg reg' ∧ CoordAbsent reg' coord := by
  cases hf : registryFindCoord reg coord with
  | none =>
    exact ⟨reg, .stop (remove_missing hf), not_not.mp fun hc => h.find_iff.mpr hc hf⟩
  | some idx =>
    obtain ⟨hafter, habsent⟩ := h.remove_found hf
    have hnone : registryFindCoord (registryRemoveCoord reg coord).2 coord = none :=
      not_not.mp fun hc => hafter.find_iff.mp hc habsent
    have hidx := ((h.keyed.findCoord_iff coord idx).mp hf).1
    exact ⟨_, .more (Prod.ext (registryRemoveCoord_found hidx hf) rfl)
      (.stop (remove_missing hnone)), habsent⟩

end Step

/-- While no two entries share a coordinate, lookups and removals by coordinate miss none. -/
theorem coords_findable {entries : ℕ → RegistryEntry} {capacity buckets : ℕ}
    (hroom : capacity < buckets) {ops : List RegistryOp} {reg : Registry}
    (hrun : Run (Guarded Unshared RegistryStep) (registryInit entries capacity buckets) ops reg) :
    CoordsFindable reg := by
  have h : CoordsIndexed reg :=
    hrun.invariant CoordsIndexed (fun _ _ _ h hs => h.step hs) (coordsIndexed_init entries hroom)
  exact ⟨fun _ => h.find_iff, h.drain⟩

/-- One name, found and removed at its coordinate. -/
theorem coords_findable_one :
    CoordsFindable (registryStep (registryInit (fun _ => zeroEntry) fabricMaxCells registryBuckets)
      (.add (ascii "abc") zeroCoord)) := by
  have hfirst : Unshared (registryInit (fun _ => zeroEntry) fabricMaxCells registryBuckets)
      (.add (ascii "abc") zeroCoord) := fun i hi => absurd hi (Nat.not_lt_zero i)
  exact coords_findable (by decide : fabricMaxCells < registryBuckets) (.single ⟨hfirst, rfl⟩)

/-- Of two names at one coordinate, one moves away and the other is no longer found. -/
theorem alias_orphaned :
    ∃ ops reg, Run RegistryStep
        (registryInit (fun _ => zeroEntry) fabricMaxCells registryBuckets) ops reg ∧
      ¬ CoordsFindable reg := by
  refine ⟨[.add (ascii "abc") zeroCoord, .add (ascii "def") zeroCoord, .setCoord 1 fun _ => 1], _,
    .cons rfl (.cons rfl (.single rfl)), fun h => (h.find zeroCoord).mpr (fun habsent => ?_) ?_⟩
  · exact habsent 0 (by decide) rfl
  · decide +kernel

end ReflexOS.Goose
