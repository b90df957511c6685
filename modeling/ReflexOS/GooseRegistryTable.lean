import ReflexOS.GooseAliases
import ReflexOS.GooseAllocation

set_option autoImplicit false

/-!
# The registry as a list

The entries in use are a list without gaps, and both lookups search it.
-/
namespace ReflexOS.Goose
open VmTernary LinearProbing Runs

def Registry.stored (reg : Registry) : List RegistryEntry := (List.range reg.count).map reg.entries

/-- The list after a call. A removal moves the last entry into the place of the one it takes. -/
def tableStep (capacity : ℕ) (L : List RegistryEntry) : RegistryOp → List RegistryEntry
  | .add name coord =>
    if L.length < capacity ∧ name.length < registryNameMax then L ++ [⟨name, coord⟩] else L
  | .setCoord idx coord => L.modify idx fun e => { e with coord := coord }
  | .removeCoord coord =>
    match L.findIdx? fun e => decide (e.coord = coord) with
    | none => L
    | some idx => (L.set idx (L.getLastD zeroEntry)).dropLast

/-- The names that are added are new. -/
def NameNew (reg : Registry) : RegistryOp → Prop
  | .add name _ => ∀ i < reg.count, (reg.entries i).name ≠ name
  | _ => True

def CoordsDistinct (reg : Registry) : Prop :=
  ∀ i < reg.count, ∀ j < reg.count, (reg.entries i).coord = (reg.entries j).coord → i = j

def KeyedStep (reg : Registry) (op : RegistryOp) (reg' : Registry) : Prop :=
  RegistryStep reg op reg' ∧ NameNew reg op ∧ CoordsDistinct reg'

/-- Both indexes are in order. -/
structure BothIndexed (reg : Registry) : Prop where
  coords : CoordsIndexed reg
  names : KeyIndexed reg .name (liveEntries reg)

section Stored
variable {reg : Registry} {i : ℕ}

@[simp] theorem length_stored (reg : Registry) : reg.stored.length = reg.count := by
  rw [Registry.stored, List.length_map, List.length_range]

theorem getElem?_stored (hi : i < reg.count) : reg.stored[i]? = some (reg.entries i) := by
  rw [Registry.stored, List.getElem?_map, List.getElem?_range hi]
  rfl

theorem getElem_stored (hi : i < reg.stored.length) : reg.stored[i] = reg.entries i := by
  simp only [Registry.stored, List.getElem_map, List.getElem_range]

theorem stored_eq_of {L : List RegistryEntry} (hlen : L.length = reg.count)
    (h : ∀ i (hi : i < L.length), reg.entries i = L[i]) : reg.stored = L := by
  apply List.ext_getElem
  · rw [length_stored, hlen]
  · intro i hi hL
    rw [getElem_stored, h i hL]

/-- What a search answers everywhere is what `findIdx?` answers. -/
theorem eq_findIdx {o : Option ℕ} {p : RegistryEntry → Bool}
    (h : ∀ i, o = some i ↔ i < reg.count ∧ p (reg.entries i) = true) :
    o = reg.stored.findIdx? p := by
  cases hf : reg.stored.findIdx? p with
  | none =>
    by_contra hne
    obtain ⟨i, hi⟩ := Option.ne_none_iff_exists'.mp hne
    obtain ⟨hlt, hp⟩ := (h i).mp hi
    have hnone := List.findIdx?_eq_none_iff.mp hf (reg.entries i)
      (List.mem_map.mpr ⟨i, List.mem_range.mpr hlt, rfl⟩)
    rw [hp] at hnone
    cases hnone
  | some i =>
    obtain ⟨hlt, hp, -⟩ := List.findIdx?_eq_some_iff_getElem.mp hf
    rw [getElem_stored] at hp
    rw [length_stored] at hlt
    exact (h i).mpr ⟨hlt, hp⟩

end Stored

section Find
variable {reg : Registry}

theorem BothIndexed.findName (h : BothIndexed reg) (name : CName) :
    registryFindName reg name = reg.stored.findIdx? fun e => decide (e.name = name) :=
  eq_findIdx fun i => (h.names.findName_iff name i).trans
    (and_congr_right fun _ => decide_eq_true_iff.symm)

theorem BothIndexed.findCoord (h : BothIndexed reg) (coord : Tryte9) :
    registryFindCoord reg coord = reg.stored.findIdx? fun e => decide (e.coord = coord) :=
  eq_findIdx fun i => (h.coords.keyed.findCoord_iff coord i).trans
    (and_congr_right fun _ => decide_eq_true_iff.symm)

end Find

section Step
variable {reg : Registry}

theorem registryAdd_refused {name : CName} (coord : Tryte9)
    (h : ¬(reg.count < reg.capacity ∧ name.length < registryNameMax)) :
    registryStep reg (.add name coord) = reg := by
  rw [registryStep, registryAdd]
  split_ifs with hcap hlen
  · rfl
  · rfl
  · exact absurd ⟨by omega, by omega⟩ h

theorem BothIndexed.add (h : BothIndexed reg) {name : CName} {coord : Tryte9}
    (hname : ∀ i < reg.count, (reg.entries i).name ≠ name)
    (hdistinct : CoordsDistinct (registryStep reg (.add name coord))) :
    BothIndexed (registryStep reg (.add name coord)) ∧
      (registryStep reg (.add name coord)).stored =
        tableStep reg.capacity reg.stored (.add name coord) := by
  by_cases hok : reg.count < reg.capacity ∧ name.length < registryNameMax
  · obtain ⟨hcap, hlen⟩ := hok
    have hadd : registryStep reg (.add name coord) = Registry.index { reg with
        entries := Function.update reg.entries reg.count ⟨name, coord⟩
        count := reg.count + 1 } reg.count := by
      rw [registryStep, registryAdd_eq coord hcap hlen]
      rfl
    have hold : ∀ i < reg.count,
        Function.update reg.entries reg.count ⟨name, coord⟩ i = reg.entries i :=
      fun i hi => Function.update_of_ne (Nat.ne_of_lt hi) _ _
    have hcoord : CoordAbsent reg coord := by
      intro i hi heq
      have hsame := hdistinct i (by rw [hadd]; exact Nat.lt_succ_of_lt hi) reg.count
        (by rw [hadd]; exact Nat.lt_succ_self _)
      rw [hadd] at hsame
      change ((Function.update reg.entries reg.count ⟨name, coord⟩ i).coord =
        (Function.update reg.entries reg.count ⟨name, coord⟩ reg.count).coord → i = reg.count)
        at hsame
      rw [hold i hi, Function.update_self] at hsame
      exact absurd (hsame heq) (Nat.ne_of_lt hi)
    have hroom : reg.count + 1 < reg.buckets := by
      have := h.coords.capacity_lt
      omega
    refine ⟨⟨h.coords.add name hcoord, ?_⟩, ?_⟩
    · rw [hadd]
      exact h.names.append hroom fun i hi hk => hname i hi (Key.name.inj hk)
    · rw [hadd, tableStep, length_stored, if_pos ⟨hcap, hlen⟩]
      change (List.range (reg.count + 1)).map
        (Function.update reg.entries reg.count ⟨name, coord⟩) = _
      rw [List.range_succ, List.map_append, List.map_singleton, Function.update_self]
      exact congrArg (· ++ _) (List.map_congr_left fun i hi => hold i (List.mem_range.mp hi))
  · rw [registryAdd_refused coord hok, tableStep, length_stored, if_neg hok]
    exact ⟨h, rfl⟩

theorem setCoord_past {idx : ℕ} (h : reg.count ≤ idx) (coord : Tryte9) :
    registrySetCoord reg idx coord = reg := if_pos h

theorem setCoord_kept (reg : Registry) (idx : ℕ) (coord : Tryte9) :
    (registrySetCoord reg idx coord).count = reg.count ∧
      (registrySetCoord reg idx coord).byName = reg.byName ∧
      (registrySetCoord reg idx coord).buckets = reg.buckets := by
  unfold registrySetCoord
  split
  · exact ⟨rfl, rfl, rfl⟩
  split
  · exact ⟨rfl, rfl, rfl⟩
  · exact ⟨rfl, rfl, rfl⟩

theorem setCoord_entries {idx : ℕ} (h : idx < reg.count) (coord : Tryte9) :
    (registrySetCoord reg idx coord).entries =
      Function.update reg.entries idx { reg.entries idx with coord := coord } := by
  unfold registrySetCoord
  rw [if_neg (Nat.not_le_of_lt h)]
  split
  next heq =>
    have hsame : ({ reg.entries idx with coord := coord } : RegistryEntry) = reg.entries idx := by
      rw [← (coordEqual_iff _ _).mp heq]
    rw [hsame, Function.update_eq_self]
  · rfl

theorem BothIndexed.setCoord (h : BothIndexed reg) (idx : ℕ) {coord : Tryte9}
    (hdistinct : CoordsDistinct (registryStep reg (.setCoord idx coord))) :
    BothIndexed (registryStep reg (.setCoord idx coord)) ∧
      (registryStep reg (.setCoord idx coord)).stored =
        tableStep reg.capacity reg.stored (.setCoord idx coord) := by
  change CoordsDistinct (registrySetCoord reg idx coord) at hdistinct
  change BothIndexed (registrySetCoord reg idx coord) ∧
    (registrySetCoord reg idx coord).stored = reg.stored.modify idx _
  obtain ⟨hcount, hbyName, hbuckets⟩ := setCoord_kept reg idx coord
  by_cases hidx : idx < reg.count
  · have hentries := setCoord_entries hidx coord
    have hnew : ∀ i < reg.count, i ≠ idx → (reg.entries i).coord ≠ coord := by
      intro i hi hne heq
      refine hne (hdistinct i ?_ idx ?_ ?_)
      · rwa [hcount]
      · rwa [hcount]
      · rw [hentries, Function.update_of_ne hne, Function.update_self]
        exact heq
    have hkey : ∀ i, ((registrySetCoord reg idx coord).entries i).key .name =
        (reg.entries i).key .name := by
      intro i
      rw [hentries]
      by_cases hi : i = idx
      · rw [hi, Function.update_self]
        rfl
      · rw [Function.update_of_ne hi]
    refine ⟨⟨h.coords.setCoord idx hnew, ?_⟩, ?_⟩
    · refine ⟨fun i hi => hi, ?_, ?_⟩
      · rw [hcount, hbuckets]
        exact h.names.room
      · have hcongr := h.names.indexed.congr fun i _ => hkey i
        change Indexes (registrySetCoord reg idx coord).buckets _ _
          (registrySetCoord reg idx coord).byName { i | i < (registrySetCoord reg idx coord).count }
        rw [hcount, hbyName, hbuckets]
        exact hcongr
    · apply stored_eq_of
      · rw [List.length_modify, length_stored, hcount]
      · intro i hi
        rw [List.getElem_modify, getElem_stored, hentries]
        split
        next heq => rw [← heq, Function.update_self]
        next hne => exact Function.update_of_ne (Ne.symm hne) _ _
  · have hpast := Nat.le_of_not_lt hidx
    rw [setCoord_past hpast, List.modify_eq_self (by rwa [length_stored])]
    exact ⟨h, rfl⟩

/-- The list without the entry at `idx`. -/
theorem stored_removed {idx : ℕ} (hidx : idx < reg.count) {reg' : Registry}
    (hcount : reg'.count = reg.count - 1)
    (hentries : ∀ i < reg.count - 1, reg'.entries i = withoutEntry reg idx i) :
    reg'.stored = (reg.stored.set idx (reg.stored.getLastD zeroEntry)).dropLast := by
  have hlast : reg.stored.getLastD zeroEntry = reg.entries (reg.count - 1) := by
    rw [List.getLastD_eq_getLast?, List.getLast?_eq_getElem?, length_stored,
      getElem?_stored (by omega)]
    rfl
  rw [hlast]
  apply stored_eq_of
  · rw [List.length_dropLast, List.length_set, length_stored, hcount]
  · intro i hi
    rw [List.length_dropLast, List.length_set, length_stored] at hi
    rw [List.getElem_dropLast, List.getElem_set, getElem_stored, hentries i hi, withoutEntry]
    split
    next heq => rw [if_pos heq.symm]
    next hne => rw [if_neg (Ne.symm hne)]

theorem BothIndexed.removeCoord (h : BothIndexed reg) (coord : Tryte9) :
    BothIndexed (registryStep reg (.removeCoord coord)) ∧
      (registryStep reg (.removeCoord coord)).stored =
        tableStep reg.capacity reg.stored (.removeCoord coord) := by
  have hfind := h.findCoord coord
  change BothIndexed (registryRemoveCoord reg coord).2 ∧
    (registryRemoveCoord reg coord).2.stored = tableStep reg.capacity reg.stored (.removeCoord coord)
  rw [tableStep, ← hfind]
  cases hf : registryFindCoord reg coord with
  | none =>
    rw [remove_missing hf]
    exact ⟨h, rfl⟩
  | some idx =>
    obtain ⟨hidx, -⟩ := (h.coords.keyed.findCoord_iff coord idx).mp hf
    obtain ⟨hcount, hentries, -, -⟩ := registryRemoveCoord_entries hidx hf
    exact ⟨⟨(h.coords.remove_found hf).1, h.names.removeCoord hidx hf⟩,
      stored_removed hidx hcount hentries⟩

theorem registryStep_capacity (reg : Registry) (op : RegistryOp) :
    (registryStep reg op).capacity = reg.capacity := by
  cases op with
  | add name coord =>
    by_cases hok : reg.count < reg.capacity ∧ name.length < registryNameMax
    · rw [registryStep, registryAdd_eq coord hok.1 hok.2]
      rfl
    · rw [registryAdd_refused coord hok]
  | setCoord idx coord => exact registrySetCoord_capacity reg coord idx
  | removeCoord coord => exact registryRemoveCoord_capacity reg coord

theorem BothIndexed.step (h : BothIndexed reg) {op : RegistryOp} {reg' : Registry}
    (hs : KeyedStep reg op reg') :
    BothIndexed reg' ∧ reg'.stored = tableStep reg.capacity reg.stored op ∧
      reg'.capacity = reg.capacity := by
  obtain ⟨rfl, hname, hdistinct⟩ := hs
  have hcap := registryStep_capacity reg op
  cases op with
  | add name coord =>
    obtain ⟨hindexed, hstored⟩ := h.add hname hdistinct
    exact ⟨hindexed, hstored, hcap⟩
  | setCoord idx coord =>
    obtain ⟨hindexed, hstored⟩ := h.setCoord idx hdistinct
    exact ⟨hindexed, hstored, hcap⟩
  | removeCoord coord =>
    obtain ⟨hindexed, hstored⟩ := h.removeCoord coord
    exact ⟨hindexed, hstored, hcap⟩

theorem BothIndexed.run {ops : List RegistryOp} {reg' : Registry}
    (hrun : Run KeyedStep reg ops reg') (h : BothIndexed reg) :
    BothIndexed reg' ∧ reg'.stored = ops.foldl (tableStep reg.capacity) reg.stored := by
  induction hrun with
  | nil reg => exact ⟨h, rfl⟩
  | cons hs _ ih =>
    obtain ⟨hnext, hstored, hcap⟩ := h.step hs
    obtain ⟨hlast, htable⟩ := ih hnext
    rw [hstored, hcap] at htable
    exact ⟨hlast, htable⟩

theorem bothIndexed_init (entries : ℕ → RegistryEntry) {capacity buckets : ℕ}
    (hroom : capacity < buckets) : BothIndexed (registryInit entries capacity buckets) where
  coords := coordsIndexed_init entries hroom
  names := (registryInit_indexes entries capacity (Nat.zero_lt_of_lt hroom)).keyed .name

end Step

/-- Where names are new and coordinates distinct, the registry is the list of its entries: every
call does to it what it does to the list, and both lookups search the list. -/
theorem registry_refines_table {entries : ℕ → RegistryEntry} {capacity buckets : ℕ}
    (hroom : capacity < buckets) {ops : List RegistryOp} {reg : Registry}
    (hrun : Run KeyedStep (registryInit entries capacity buckets) ops reg) :
    reg.stored = ops.foldl (tableStep capacity) [] ∧
      (∀ name, registryFindName reg name =
        reg.stored.findIdx? fun e => decide (e.name = name)) ∧
      ∀ coord, registryFindCoord reg coord =
        reg.stored.findIdx? fun e => decide (e.coord = coord) := by
  obtain ⟨hindexed, hstored⟩ := (bothIndexed_init entries hroom).run hrun
  exact ⟨hstored, hindexed.findName, hindexed.findCoord⟩

/-- Two names, of which the first is removed and the second moves into its place. -/
theorem registry_refines_table_moved : ∃ reg,
    reg.stored = [⟨ascii "def", fun _ => 1⟩] ∧ registryFindName reg (ascii "def") = some 0 := by
  let reg₀ := registryInit (fun _ => zeroEntry) fabricMaxCells registryBuckets
  let ops : List RegistryOp := [.add (ascii "abc") zeroCoord, .add (ascii "def") fun _ => 1,
    .removeCoord zeroCoord]
  have hrun : Run KeyedStep reg₀ ops (ops.foldl registryStep reg₀) := by
    refine .cons ⟨rfl, ?_, ?_⟩ (.cons ⟨rfl, ?_, ?_⟩ (.single ⟨rfl, trivial, ?_⟩))
    · exact fun i hi => absurd hi (Nat.not_lt_zero i)
    · exact fun i hi j hj _ => (Nat.lt_one_iff.mp hi).trans (Nat.lt_one_iff.mp hj).symm
    · intro i hi
      obtain rfl := Nat.lt_one_iff.mp hi
      decide +kernel
    · unfold CoordsDistinct
      decide +kernel
    · have hcount : (ops.foldl registryStep reg₀).count = 1 := by decide +kernel
      intro i hi j hj _
      change i < (ops.foldl registryStep reg₀).count at hi
      change j < (ops.foldl registryStep reg₀).count at hj
      omega
  obtain ⟨hstored, hname, -⟩ := registry_refines_table (by decide) hrun
  have hlist : (ops.foldl registryStep reg₀).stored = [⟨ascii "def", fun _ => 1⟩] :=
    hstored.trans rfl
  refine ⟨_, hlist, ?_⟩
  rw [hname, hlist]
  rfl

end ReflexOS.Goose
