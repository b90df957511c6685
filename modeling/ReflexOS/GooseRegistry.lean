import ReflexOS.GooseLattice

set_option autoImplicit false

/-!
# The name registry

Compact entries, indexed twice: by name and by coordinate.
-/
namespace ReflexOS.Goose
open VmTernary LinearProbing

def registryNameMax : ℕ := 96

structure RegistryEntry where
  name : CName
  coord : Tryte9
deriving DecidableEq

def zeroEntry : RegistryEntry := ⟨[], zeroCoord⟩

structure Registry where
  entries : ℕ → RegistryEntry
  capacity : ℕ
  count : ℕ
  byName : Slots
  byCoord : Slots
  buckets : ℕ

inductive KeyKind where
  | name
  | coord
deriving DecidableEq, Repr

inductive Key where
  | name (name : CName)
  | coord (coord : Tryte9)
deriving DecidableEq

/-- FNV-1a in `uint32_t`. -/
def registryNameHash (buckets : ℕ) (name : CName) : ℕ :=
  (name.foldl (fun h c => (h ^^^ c.toNat) * 16777619 % 2 ^ 32) 2166136261) % buckets

def keyHash (buckets : ℕ) : Key → ℕ
  | .name s => registryNameHash buckets s
  | .coord c => latticeHash buckets c

def RegistryEntry.key (e : RegistryEntry) : KeyKind → Key
  | .name => .name e.name
  | .coord => .coord e.coord

/-- Entries at or beyond the count are dead. -/
def entryMatches (reg : Registry) (k : Key) (idx : ℕ) : Bool :=
  decide (idx < reg.count) &&
    match k with
    | .name s => decide ((reg.entries idx).name = s)
    | .coord c => coordEqual (reg.entries idx).coord c

def idxFind (reg : Registry) (slots : Slots) (k : Key) : Option ℕ :=
  find reg.buckets slots (entryMatches reg k) (keyHash reg.buckets k)

def idxInsert (reg : Registry) (slots : Slots) (k : Key) (value : ℕ) : Slots :=
  insert reg.buckets slots (entryMatches reg k) (keyHash reg.buckets k) value

def idxRemove (reg : Registry) (slots : Slots) (k : Key) (kind : KeyKind) : Slots :=
  remove reg.buckets (fun idx => keyHash reg.buckets ((reg.entries idx).key kind))
    (fun idx => decide (idx < reg.count)) slots (entryMatches reg k) (keyHash reg.buckets k)

def registryInit (entries : ℕ → RegistryEntry) (capacity buckets : ℕ) : Registry :=
  ⟨entries, capacity, 0, fun _ => none, fun _ => none, buckets⟩

def registryFindName (reg : Registry) (name : CName) : Option ℕ :=
  idxFind reg reg.byName (.name name)

def registryFindCoord (reg : Registry) (coord : Tryte9) : Option ℕ :=
  idxFind reg reg.byCoord (.coord coord)

/-- Put entry `idx` into both indexes under the keys it holds. -/
def Registry.index (reg : Registry) (idx : ℕ) : Registry :=
  { reg with
    byName := idxInsert reg reg.byName ((reg.entries idx).key .name) idx
    byCoord := idxInsert reg reg.byCoord ((reg.entries idx).key .coord) idx }

/-- Take entry `idx` out of both indexes while it still holds its keys. -/
def Registry.unindex (reg : Registry) (idx : ℕ) : Registry :=
  { reg with
    byName := idxRemove reg reg.byName ((reg.entries idx).key .name) .name
    byCoord := idxRemove reg reg.byCoord ((reg.entries idx).key .coord) .coord }

def registryAdd (reg : Registry) (name : CName) (coord : Tryte9) : Option (ℕ × Registry) :=
  if reg.capacity ≤ reg.count then none
  else if registryNameMax ≤ name.length then none
  else
    let idx := reg.count
    let reg := { reg with
      entries := Function.update reg.entries idx ⟨name, coord⟩
      count := reg.count + 1 }
    some (idx, reg.index idx)

def registrySetCoord (reg : Registry) (idx : ℕ) (coord : Tryte9) : Registry :=
  if reg.count ≤ idx then reg
  else if coordEqual (reg.entries idx).coord coord then reg
  else
    let unmapped := { reg with
      byCoord := idxRemove reg reg.byCoord ((reg.entries idx).key .coord) .coord }
    let moved := { unmapped with
      entries := Function.update reg.entries idx { reg.entries idx with coord := coord } }
    { moved with byCoord := idxInsert moved moved.byCoord (.coord coord) idx }

/-- Entry `last` moves down into the hole `idx`. -/
def Registry.moveLast (reg : Registry) (idx last : ℕ) : Registry :=
  let reg := reg.unindex last
  let reg := { reg with
    entries := Function.update reg.entries idx (reg.entries last)
    count := reg.count - 1 }
  reg.index idx

def registryRemoveCoord (reg : Registry) (coord : Tryte9) : Bool × Registry :=
  if reg.count = 0 then (false, reg)
  else
    match registryFindCoord reg coord with
    | none => (false, reg)
    | some idx =>
      let last := reg.count - 1
      let reg := reg.unindex idx
      let reg := if idx ≠ last then reg.moveLast idx last else { reg with count := reg.count - 1 }
      (true, { reg with entries := Function.update reg.entries reg.count zeroEntry })

theorem keyHash_lt {buckets : ℕ} (h : 0 < buckets) (k : Key) : keyHash buckets k < buckets := by
  cases k with
  | name s => exact Nat.mod_lt _ h
  | coord c => exact latticeHash_lt h c

theorem entryMatches_iff {reg : Registry} (kind : KeyKind) {i j : ℕ} (hi : i < reg.count)
    (e : RegistryEntry) (he : reg.entries j = e) :
    entryMatches reg (e.key kind) i = true ↔
      (reg.entries i).key kind = (reg.entries j).key kind := by
  subst he
  cases kind <;> simp [entryMatches, hi, RegistryEntry.key, coordEqual_iff]

theorem entryMatches_name {reg : Registry} {i : ℕ} (hi : i < reg.count) (s : CName) :
    entryMatches reg (.name s) i = true ↔ (reg.entries i).key .name = .name s := by
  simp [entryMatches, hi, RegistryEntry.key]

theorem entryMatches_coord {reg : Registry} {i : ℕ} (hi : i < reg.count) (c : Tryte9) :
    entryMatches reg (.coord c) i = true ↔ (reg.entries i).key .coord = .coord c := by
  simp [entryMatches, hi, RegistryEntry.key, coordEqual_iff]

theorem registryFindCoord_some {reg : Registry} (hb : 0 < reg.buckets) {c : Tryte9} {g : ℕ}
    (h : registryFindCoord reg c = some g) : g < reg.count ∧ (reg.entries g).coord = c := by
  have hm := (find_some (keyHash_lt hb (.coord c)) h).2
  simpa [entryMatches, coordEqual_iff] using hm

/-- One of the two indexes. -/
def Registry.slots (reg : Registry) : KeyKind → Slots
  | .name => reg.byName
  | .coord => reg.byCoord

/-- The index by one kind of key holds exactly the entries in `S`, and their keys differ. -/
structure KeyIndexed (reg : Registry) (kind : KeyKind) (S : Set ℕ) : Prop where
  bounded : ∀ i ∈ S, i < reg.count
  room : reg.count < reg.buckets
  indexed : Indexes reg.buckets (fun i => (reg.entries i).key kind) (keyHash reg.buckets)
    (reg.slots kind) S

section Keyed

variable {reg : Registry} {kind : KeyKind} {S : Set ℕ} (h : KeyIndexed reg kind S)
include h

theorem KeyIndexed.hash_lt (k : Key) : keyHash reg.buckets k < reg.buckets :=
  keyHash_lt (Nat.zero_lt_of_lt h.room) k

theorem KeyIndexed.exists_empty : ∃ e < reg.buckets, reg.slots kind e = none :=
  LinearProbing.exists_empty h.indexed.probed.inj
    (fun v hv => h.bounded v ((h.indexed.holds v).mp hv)) h.room

theorem KeyIndexed.matches_iff (j : ℕ) : ∀ i ∈ S,
    entryMatches reg ((reg.entries j).key kind) i = true ↔
      (reg.entries i).key kind = (reg.entries j).key kind :=
  fun i hi => entryMatches_iff kind (h.bounded i hi) _ rfl

theorem KeyIndexed.unindex {i : ℕ} (hi : i ∈ S) : KeyIndexed (reg.unindex i) kind (S \ {i}) where
  bounded j hj := h.bounded j hj.1
  room := h.room
  indexed := by
    have hremove := h.indexed.remove (h.hash_lt _) (h.matches_iff i) hi rfl
      (fun w hw => decide_eq_true (h.bounded w hw)) h.exists_empty
    cases kind with
    | name => exact hremove
    | coord => exact hremove

theorem KeyIndexed.index {i : ℕ} (hi : i ∉ S) (hlt : i < reg.count)
    (hkey : ∀ j ∈ S, (reg.entries j).key kind ≠ (reg.entries i).key kind) :
    KeyIndexed (reg.index i) kind (S ∪ {i}) where
  bounded := by
    rintro j (hj | rfl)
    · exact h.bounded j hj
    · exact hlt
  room := h.room
  indexed := by
    have hinsert := h.indexed.insert (h.hash_lt _) (h.matches_iff i) rfl hi hkey h.exists_empty
    cases kind with
    | name => exact hinsert
    | coord => exact hinsert

/-- The entries outside `S` and the count may change. -/
theorem KeyIndexed.rewrite {entries : ℕ → RegistryEntry} (count : ℕ)
    (he : ∀ i ∈ S, (entries i).key kind = (reg.entries i).key kind) (hS : ∀ i ∈ S, i < count)
    (hc : count < reg.buckets) :
    KeyIndexed { reg with entries := entries, count := count } kind S where
  bounded := hS
  room := hc
  indexed := by
    have hcongr := h.indexed.congr he
    cases kind with
    | name => exact hcongr
    | coord => exact hcongr

end Keyed

/-- Both indexes hold exactly the entries in `S`, with distinct names and coordinates. -/
structure RegistryIndexes (reg : Registry) (S : Set ℕ) : Prop where
  bounded : ∀ i ∈ S, i < reg.count
  room : reg.count < reg.buckets
  byName : Indexes reg.buckets (fun i => (reg.entries i).key .name) (keyHash reg.buckets)
    reg.byName S
  byCoord : Indexes reg.buckets (fun i => (reg.entries i).key .coord) (keyHash reg.buckets)
    reg.byCoord S

theorem registryIndexes_iff {reg : Registry} {S : Set ℕ} :
    RegistryIndexes reg S ↔ ∀ kind, KeyIndexed reg kind S := by
  constructor
  · intro h kind
    cases kind with
    | name => exact ⟨h.bounded, h.room, h.byName⟩
    | coord => exact ⟨h.bounded, h.room, h.byCoord⟩
  · exact fun h => ⟨(h .name).bounded, (h .name).room, (h .name).indexed, (h .coord).indexed⟩

theorem KeyIndexed.findName_iff {reg : Registry} {S : Set ℕ} (h : KeyIndexed reg .name S)
    (s : CName) (i : ℕ) : registryFindName reg s = some i ↔ i ∈ S ∧ (reg.entries i).name = s := by
  have hf := h.indexed.find_iff (p := entryMatches reg (.name s)) (h.hash_lt (.name s))
    (fun v hv => entryMatches_name (h.bounded v hv) s) i
  exact hf.trans (and_congr_right fun _ => by simp [RegistryEntry.key])

theorem KeyIndexed.findCoord_iff {reg : Registry} {S : Set ℕ} (h : KeyIndexed reg .coord S)
    (c : Tryte9) (i : ℕ) :
    registryFindCoord reg c = some i ↔ i ∈ S ∧ (reg.entries i).coord = c := by
  have hf := h.indexed.find_iff (p := entryMatches reg (.coord c)) (h.hash_lt (.coord c))
    (fun v hv => entryMatches_coord (h.bounded v hv) c) i
  exact hf.trans (and_congr_right fun _ => by simp [RegistryEntry.key])

section Index

variable {reg : Registry} {S : Set ℕ} (h : RegistryIndexes reg S)
include h

theorem RegistryIndexes.keyed (kind : KeyKind) : KeyIndexed reg kind S :=
  registryIndexes_iff.mp h kind

theorem RegistryIndexes.findName_iff (s : CName) (i : ℕ) :
    registryFindName reg s = some i ↔ i ∈ S ∧ (reg.entries i).name = s :=
  (h.keyed .name).findName_iff s i

theorem RegistryIndexes.findCoord_iff (c : Tryte9) (i : ℕ) :
    registryFindCoord reg c = some i ↔ i ∈ S ∧ (reg.entries i).coord = c :=
  (h.keyed .coord).findCoord_iff c i

end Index

/-- The entries in use. -/
def liveEntries (reg : Registry) : Set ℕ := { i | i < reg.count }

theorem registryInit_indexes (entries : ℕ → RegistryEntry) (capacity : ℕ) {buckets : ℕ}
    (hb : 0 < buckets) :
    RegistryIndexes (registryInit entries capacity buckets)
      (liveEntries (registryInit entries capacity buckets)) := by
  have hset : liveEntries (registryInit entries capacity buckets) = ∅ := by
    ext i
    simp [liveEntries, registryInit]
  rw [hset]
  exact ⟨fun i hi => absurd hi (Set.notMem_empty i), hb, indexes_empty, indexes_empty⟩

theorem KeyIndexed.append {reg : Registry} {kind : KeyKind} {e : RegistryEntry}
    (h : KeyIndexed reg kind (liveEntries reg)) (hroom : reg.count + 1 < reg.buckets)
    (hnew : ∀ i < reg.count, (reg.entries i).key kind ≠ e.key kind) :
    KeyIndexed (Registry.index { reg with
        entries := Function.update reg.entries reg.count e, count := reg.count + 1 } reg.count) kind
      { i | i < reg.count + 1 } := by
  have hold : ∀ i ∈ liveEntries reg, Function.update reg.entries reg.count e i = reg.entries i :=
    fun i hi => Function.update_of_ne (Nat.ne_of_lt hi) _ _
  have hset : { i | i < reg.count + 1 } = liveEntries reg ∪ {reg.count} := by
    ext i
    simp only [liveEntries, Set.mem_union, Set.mem_ofPred_eq, Set.mem_singleton_iff]
    omega
  rw [hset]
  refine (h.rewrite _ (fun i hi => congrArg (RegistryEntry.key · kind) (hold i hi))
    (fun i hi => Nat.lt_succ_of_lt hi) hroom).index (fun hc => lt_irrefl reg.count hc)
    (Nat.lt_succ_self _) fun j hj => ?_
  dsimp only
  rw [hold j hj, Function.update_self]
  exact hnew j hj

theorem registryAdd_eq {reg : Registry} {name : CName} (coord : Tryte9)
    (hcap : reg.count < reg.capacity) (hlen : name.length < registryNameMax) :
    registryAdd reg name coord = some (reg.count, Registry.index { reg with
      entries := Function.update reg.entries reg.count ⟨name, coord⟩
      count := reg.count + 1 } reg.count) := by
  rw [registryAdd, if_neg (Nat.not_le_of_lt hcap), if_neg (Nat.not_le_of_lt hlen)]

theorem registryAdd_indexes {reg : Registry} (h : RegistryIndexes reg (liveEntries reg))
    {name : CName} {coord : Tryte9} (hcap : reg.count < reg.capacity)
    (hroom : reg.count + 1 < reg.buckets) (hlen : name.length < registryNameMax)
    (hname : ∀ i < reg.count, (reg.entries i).name ≠ name)
    (hcoord : ∀ i < reg.count, (reg.entries i).coord ≠ coord) :
    ∃ reg', registryAdd reg name coord = some (reg.count, reg') ∧
      RegistryIndexes reg' (liveEntries reg') ∧ reg'.count = reg.count + 1 ∧
      reg'.entries = Function.update reg.entries reg.count ⟨name, coord⟩ := by
  refine ⟨_, registryAdd_eq coord hcap hlen, registryIndexes_iff.mpr fun kind => ?_, rfl, rfl⟩
  refine (h.keyed kind).append hroom fun i hi => ?_
  cases kind with
  | name => exact fun hk => hname i hi (Key.name.inj hk)
  | coord => exact fun hk => hcoord i hi (Key.coord.inj hk)

/-- Where the entries go when entry `idx` is removed: the last one moves down. -/
def withoutEntry (reg : Registry) (idx i : ℕ) : RegistryEntry :=
  if i = idx then reg.entries (reg.count - 1) else reg.entries i

section Remove

variable {reg : Registry} {coord : Tryte9} {idx : ℕ} (hidx : idx < reg.count)
  (hf : registryFindCoord reg coord = some idx)
include hidx hf

theorem registryRemoveCoord_last (hlast : idx = reg.count - 1) :
    registryRemoveCoord reg coord = (true, { reg.unindex idx with
      count := reg.count - 1
      entries := Function.update reg.entries (reg.count - 1) zeroEntry }) := by
  rw [registryRemoveCoord, if_neg (Nat.ne_zero_of_lt hidx), hf]
  simp [hlast, Registry.unindex]

theorem registryRemoveCoord_moved (hlast : idx ≠ reg.count - 1) :
    registryRemoveCoord reg coord = (true, { (reg.unindex idx).moveLast idx (reg.count - 1) with
      entries := Function.update ((reg.unindex idx).moveLast idx (reg.count - 1)).entries
        (reg.count - 1) zeroEntry }) := by
  rw [registryRemoveCoord, if_neg (Nat.ne_zero_of_lt hidx), hf]
  simp only [ne_eq, hlast, not_false_eq_true, if_true]
  rfl

theorem registryRemoveCoord_found : (registryRemoveCoord reg coord).1 = true := by
  by_cases hlast : idx = reg.count - 1
  · rw [registryRemoveCoord_last hidx hf hlast]
  · rw [registryRemoveCoord_moved hidx hf hlast]

theorem registryRemoveCoord_entries :
    (registryRemoveCoord reg coord).2.count = reg.count - 1 ∧
      (∀ i < reg.count - 1,
        (registryRemoveCoord reg coord).2.entries i = withoutEntry reg idx i) ∧
      (registryRemoveCoord reg coord).2.buckets = reg.buckets ∧
      (registryRemoveCoord reg coord).2.capacity = reg.capacity := by
  by_cases hlast : idx = reg.count - 1
  · rw [registryRemoveCoord_last hidx hf hlast]
    refine ⟨rfl, fun i hi => ?_, rfl, rfl⟩
    have hne : i ≠ idx := by omega
    have hne' : i ≠ reg.count - 1 := by omega
    simp [withoutEntry, hne, hne']
  · rw [registryRemoveCoord_moved hidx hf hlast]
    refine ⟨rfl, fun i hi => ?_, rfl, rfl⟩
    have hne : i ≠ reg.count - 1 := by omega
    simp only [Function.update_of_ne hne, withoutEntry]
    by_cases hi' : i = idx
    · subst i
      simp [Registry.moveLast, Registry.index, Registry.unindex]
    · simp [Registry.moveLast, Registry.index, Registry.unindex, hi']

/-- Each index loses the removed entry and follows the one that moves into its place. -/
theorem KeyIndexed.removeCoord {kind : KeyKind} (h : KeyIndexed reg kind (liveEntries reg)) :
    KeyIndexed (registryRemoveCoord reg coord).2 kind
      (liveEntries (registryRemoveCoord reg coord).2) := by
  have hroom : reg.count - 1 < reg.buckets := lt_of_le_of_lt (Nat.sub_le _ _) h.room
  have h₁ := h.unindex (i := idx) hidx
  by_cases hlast : idx = reg.count - 1
  · have hlive : { i | i < reg.count - 1 } = liveEntries reg \ {idx} := by
      ext i
      simp only [liveEntries, Set.mem_sdiff, Set.mem_ofPred_eq, Set.mem_singleton_iff]
      omega
    have hbelow : ∀ i ∈ liveEntries reg \ {idx}, i < reg.count - 1 := fun i hi => by
      rwa [← hlive] at hi
    rw [registryRemoveCoord_last hidx hf hlast]
    change KeyIndexed _ kind { i | i < reg.count - 1 }
    rw [hlive]
    exact h₁.rewrite _ (fun i hi => congrArg (RegistryEntry.key · kind)
      (Function.update_of_ne (Nat.ne_of_lt (hbelow i hi)) _ _)) hbelow hroom
  · have hset : { i | i < reg.count - 1 } =
        (liveEntries reg \ {idx}) \ {reg.count - 1} ∪ {idx} := by
      ext i
      simp only [liveEntries, Set.mem_union, Set.mem_sdiff, Set.mem_ofPred_eq,
        Set.mem_singleton_iff]
      omega
    have hlt : reg.count - 1 < reg.count := by omega
    have hmem : reg.count - 1 ∈ liveEntries reg \ {idx} := ⟨hlt, fun he => hlast he.symm⟩
    have h₂ := h₁.unindex hmem
    have hold : ∀ i ∈ (liveEntries reg \ {idx}) \ {reg.count - 1},
        Function.update reg.entries idx (reg.entries (reg.count - 1)) i = reg.entries i :=
      fun i hi => Function.update_of_ne hi.1.2 _ _
    have h₃ : KeyIndexed ((reg.unindex idx).moveLast idx (reg.count - 1)) kind
        { i | i < reg.count - 1 } := by
      rw [hset]
      refine (h₂.rewrite (reg.count - 1) (fun i hi => congrArg (RegistryEntry.key · kind)
        (hold i hi)) (fun i hi => ?_) hroom).index (fun hc => hc.1.2 rfl) ?_ fun j hj => ?_
      · have hlt : i < reg.count := hi.1.1
        have : i ≠ reg.count - 1 := hi.2
        omega
      · change idx < reg.count - 1
        omega
      · have hj' : j ∈ liveEntries reg := hj.1.1
        dsimp only
        rw [hold j hj, Function.update_self]
        exact fun he => hj.2 (h.indexed.distinct j hj' _ hlt he)
    rw [registryRemoveCoord_moved hidx hf hlast]
    exact h₃.rewrite _ (fun i hi => congrArg (RegistryEntry.key · kind)
      (Function.update_of_ne (Nat.ne_of_lt hi) _ _)) (fun i hi => hi) hroom

end Remove

theorem registryRemoveCoord_indexes {reg : Registry} (h : RegistryIndexes reg (liveEntries reg))
    {coord : Tryte9} {idx : ℕ} (hf : registryFindCoord reg coord = some idx) :
    RegistryIndexes (registryRemoveCoord reg coord).2
        (liveEntries (registryRemoveCoord reg coord).2) ∧
      (registryRemoveCoord reg coord).2.count = reg.count - 1 ∧
      (∀ i < reg.count - 1,
        (registryRemoveCoord reg coord).2.entries i = withoutEntry reg idx i) ∧
      (registryRemoveCoord reg coord).2.buckets = reg.buckets := by
  obtain ⟨hidx, -⟩ := (h.findCoord_iff coord idx).mp hf
  have hidx : idx < reg.count := hidx
  obtain ⟨hcount, hentries, hbuckets, -⟩ := registryRemoveCoord_entries hidx hf
  exact ⟨registryIndexes_iff.mpr fun kind => (h.keyed kind).removeCoord hidx hf, hcount, hentries,
    hbuckets⟩

end ReflexOS.Goose
