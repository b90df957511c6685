import ReflexOS.GooseEviction
import ReflexOS.RoundRobin

set_option autoImplicit false

/-!
# The names in the eviction ring

On a full fabric the cursor goes round: the cell in the slot just vacated is the last it
comes back to. So the names it reaches next, and behind them the names in the ring, keep
their distance for as long as nothing else moves a name.
-/
namespace ReflexOS.Goose
open VmTernary LinearProbing Runs RoundRobin

/-- The name under which a cell would be evicted. -/
def evictableName (F : Fabric) (v : ℕ) : Option CName :=
  if cellIsEvictable (F.cells v) then gooniesResolveNameByCoord F.registry (F.cells v).coord
  else none

/-- The evictable cells that have a name. -/
def namedEvictable (F : Fabric) : List ℕ :=
  (List.range F.cellCount).filter fun v => (evictableName F v).isSome

/-- Their names, in the order in which the cursor comes to them. -/
def evictionQueue (F : Fabric) : List CName :=
  items (evictableName F) fabricMaxCells F.lastEvictionIdx

section Queue
variable {F F' : Fabric}

theorem findVictim_split {t : ℕ} (h : findVictim F = some t) : ∃ pre post,
    order fabricMaxCells F.lastEvictionIdx = pre ++ t :: post ∧
      ∀ v ∈ pre, evictableName F v = none := by
  rw [findVictim, ← order_eq_map] at h
  obtain ⟨-, pre, post, hsplit, hpre⟩ := List.find?_eq_some_iff_append.mp h
  refine ⟨pre, post, hsplit, fun v hv => if_neg ?_⟩
  simpa using hpre v hv

theorem length_evictionQueue (hfull : F.cellCount = fabricMaxCells) :
    (evictionQueue F).length = (namedEvictable F).length := by
  rw [evictionQueue, length_items, namedEvictable, hfull]

theorem evictableName_some (h : NamesTidy F.registry) {v : ℕ} {s : CName}
    (hs : evictableName F v = some s) : Registered F.registry s (F.cells v).coord := by
  unfold evictableName at hs
  split at hs
  · exact (h.resolveName_iff _ _).mp hs
  · cases hs

theorem Tidy.evictionQueue_nodup (h : Tidy F) (hfull : F.cellCount = fabricMaxCells) :
    (evictionQueue F).Nodup := by
  refine items_nodup fun v hv w hw s hvs hws => ?_
  have hc := h.names.coord_unique (evictableName_some h.names hvs) (evictableName_some h.names hws)
  exact h.fabric.coord_inj (hfull ▸ hv) (hfull ▸ hw) hc

theorem Tidy.notMem_evictionQueue (h : Tidy F) {s : CName}
    (hs : gooniesResolve F.registry s = none) : s ∉ evictionQueue F := by
  intro hmem
  obtain ⟨v, -, hv⟩ := mem_items.mp hmem
  exact (h.names.resolve_none_iff s).mp hs _ (evictableName_some h.names hv)

theorem evictableName_congr (h : NamesTidy F.registry) (h' : NamesTidy F'.registry) {v : ℕ}
    (hc : (F'.cells v).coord = (F.cells v).coord)
    (he : cellIsEvictable (F'.cells v) = cellIsEvictable (F.cells v))
    (hr : ∀ s, Registered F'.registry s (F.cells v).coord ↔
      Registered F.registry s (F.cells v).coord) : evictableName F' v = evictableName F v := by
  unfold evictableName
  rw [he, hc]
  split
  · ext s
    exact (h'.resolveName_iff _ _).trans ((hr s).trans (h.resolveName_iff _ _).symm)
  · rfl

theorem update_evictable {cells : ℕ → Cell} {idx : ℕ} {c : Cell}
    (he : cellIsEvictable c = cellIsEvictable (cells idx)) (v : ℕ) :
    cellIsEvictable (Function.update cells idx c v) = cellIsEvictable (cells v) := by
  by_cases hv : v = idx
  · rw [hv, Function.update_self, he]
  · rw [Function.update_of_ne hv]

end Queue

/-- The tables are in order, and no name is near another place where it is in the ring or
comes up for eviction. -/
structure Circling (F : Fabric) : Prop where
  tidy : Tidy F
  young : F.cellCount < fabricMaxCells → getEvictionRing F = []
  spaced : F.cellCount = fabricMaxCells →
    Sparse evictionRingSize (getEvictionRing F ++ evictionQueue F)

/-- The name has no other coordinate. -/
def OnePlace (reg : Registry) (name : CName) (coord : Tryte9) : Prop :=
  ∀ coord', gooniesResolve reg name = some coord' → coord' = coord

/-- What a call on a full fabric keeps to: names do not move, a live cell is not named after
a recent victim, and a new cell finds a victim without loss. -/
structure FullCall (atlas : Atlas) (F : Fabric) (name : Option CName) (coord : Tryte9)
    (sys : Bool) : Prop where
  place : ∀ s, name = some s → OnePlace F.registry s coord
  fresh : ∀ s, name = some s → ¬ CoordFree F coord → gooniesResolve F.registry s = none →
    s ∉ getEvictionRing F
  safe : CoordFree F coord → EvictionSafe atlas F name sys
  enough : CoordFree F coord → evictionRingSize ≤ (namedEvictable F).length

/-- The calls of the run. -/
def RingCall (atlas : Atlas) (F : Fabric) : FabricOp → Prop
  | .alloc lock name coord sys _ => Refused atlas lock F sys ∨
      (∀ s, name = some s → OneName F.registry s coord) ∧
        (F.cellCount = fabricMaxCells → FullCall atlas F name coord sys)
  | .write idx cell =>
      F.cellCount = fabricMaxCells → cellIsEvictable cell = cellIsEvictable (F.cells idx)
  | .boot _ _ => False

theorem NamesTidy.withName_placed {reg : Registry} (h : NamesTidy reg) (atlas : Atlas)
    {name : Option CName} {coord : Tryte9} (hplace : ∀ s, name = some s → OnePlace reg s coord)
    (sys : Bool) : Goose.withName atlas reg name coord sys = reg ∨
      ∃ s, name = some s ∧ gooniesResolve reg s = none ∧
        (gooniesRegister atlas reg s coord sys).1 = Err.ok := by
  cases name with
  | none => exact .inl rfl
  | some s =>
    by_cases hok : (gooniesRegister atlas reg s coord sys).1 = Err.ok
    · cases hr : gooniesResolve reg s with
      | none => exact .inr ⟨s, rfl, hr, hok⟩
      | some coord' =>
        obtain rfl := hplace s rfl coord' hr
        exact .inl (h.register_same ((h.names.resolve_iff s coord').mp hr) atlas sys)
    · exact .inl (gooniesRegister_fail _ _ _ _ _ hok)

theorem NamesTidy.nameless {reg : Registry} (h : NamesTidy reg) {name : CName} {coord : Tryte9}
    (hone : OneName reg name coord) (hnew : gooniesResolve reg name = none) :
    gooniesResolveNameByCoord reg coord = none := by
  cases hr : gooniesResolveNameByCoord reg coord with
  | none => rfl
  | some s =>
    obtain rfl := hone s hr
    exact absurd ((h.resolveName_iff s coord).mp hr) ((h.resolve_none_iff s).mp hnew coord)

/-- The names once a victim's slot is given to a name that was not there. -/
theorem Tidy.evicted_registered {F : Fabric} (h : Tidy F) {atlas : Atlas} {name : Option CName}
    {coord : Tryte9} {sys : Bool} (t : ℕ)
    (hnew : ∀ s, name = some s → gooniesResolve F.registry s = none)
    (hok : ∀ s, name = some s →
      (gooniesRegister atlas (evict F t).registry s coord sys).1 = Err.ok)
    (s : CName) (coord' : Tryte9) :
    Registered (withName atlas (evict F t).registry name coord sys) s coord' ↔
      Registered F.registry s coord' ∧ coord' ≠ (F.cells t).coord ∨
        name = some s ∧ coord' = coord := by
  obtain ⟨hnames, hleft⟩ := h.names.forget (F.cells t).coord
  have hnames : NamesTidy (evict F t).registry := hnames
  have hgone : ∀ s, name = some s → gooniesResolve (evict F t).registry s = none := by
    intro s hs
    refine (hnames.resolve_none_iff s).mpr fun c hr => ?_
    exact (h.names.resolve_none_iff s).mp (hnew s hs) c ((hleft s c).mp hr).1
  exact (hnames.withName_new hgone hok s coord').trans (or_congr_left (hleft s coord'))

theorem FullCall.new {atlas : Atlas} {F : Fabric} {name : Option CName} {coord : Tryte9}
    {sys : Bool} (hcall : FullCall atlas F name coord sys) (h : Tidy F)
    (hfree : CoordFree F coord) (s : CName) (hs : name = some s) :
    gooniesResolve F.registry s = none := by
  refine (h.names.resolve_none_iff s).mpr fun c hr => ?_
  obtain rfl := hcall.place s hs c ((h.names.names.resolve_iff s c).mpr hr)
  exact h.live s c hr hfree

section Circle
variable {atlas : Atlas} {F F' : Fabric} {name : Option CName} {coord : Tryte9} {sys : Bool}

theorem Circling.of_quiet (h : Tidy F) (hring : getEvictionRing F = []) : Circling F where
  tidy := h
  young _ := hring
  spaced hfull := by
    rw [hring]
    exact .of_nodup (h.evictionQueue_nodup hfull)

variable (h : Circling F)
include h

theorem Circling.ring_nodup : (getEvictionRing F).Nodup := by
  rcases Nat.lt_or_eq_of_le h.tidy.fabric.count_le with hroom | hfull
  · rw [h.young hroom]
    exact List.nodup_nil
  · exact ((h.spaced hfull).inside (List.prefix_append _ _).isInfix).nodup
      (length_getEvictionRing F)

theorem Circling.write {idx : ℕ} {cell : Cell} (hc : cell.coord = (F.cells idx).coord)
    (he : F.cellCount = fabricMaxCells → cellIsEvictable cell = cellIsEvictable (F.cells idx)) :
    Circling { F with cells := Function.update F.cells idx cell } where
  tidy := h.tidy.write hc
  young hroom := h.young hroom
  spaced hfull := by
    have hqueue : evictionQueue { F with cells := Function.update F.cells idx cell } =
        evictionQueue F :=
      List.filterMap_congr fun v _ => @evictableName_congr F
        { F with cells := Function.update F.cells idx cell } h.tidy.names h.tidy.names v
        (update_coord hc v) (update_evictable (he hfull) v) fun s => Iff.rfl
    rw [hqueue]
    exact h.spaced hfull

theorem Circling.named {v : ℕ} (hv : v < F.cellCount) (hc : (F.cells v).coord = coord)
    (hone : ∀ s, name = some s → OneName F.registry s coord)
    (hfull : F.cellCount = fabricMaxCells → FullCall atlas F name coord sys)
    (htidy : Tidy { F with registry := withName atlas F.registry name coord sys }) :
    Circling { F with registry := withName atlas F.registry name coord sys } where
  tidy := htidy
  young hroom := h.young hroom
  spaced hcount := by
    have hcall := hfull hcount
    rcases h.tidy.names.withName_placed atlas hcall.place sys with hsame | ⟨s, rfl, hnew, hok⟩
    · rw [hsame]
      exact h.spaced hcount
    have hlive : ¬ CoordFree F coord := fun hfree => hfree v hv hc
    have hreg : ∀ s' coord', Registered (withName atlas F.registry (some s) coord sys) s' coord' ↔
        Registered F.registry s' coord' ∨ s' = s ∧ coord' = coord :=
      h.tidy.names.names.registered_new hnew hok
    have hothers : ∀ w < fabricMaxCells, w ≠ v → evictableName
        { F with registry := withName atlas F.registry (some s) coord sys } w =
          evictableName F w := by
      intro w hw hne
      refine evictableName_congr h.tidy.names htidy.names rfl rfl fun s' => ?_
      refine (hreg s' _).trans (or_iff_left ?_)
      rintro ⟨-, hcw⟩
      exact hne (h.tidy.fabric.coord_inj (hcount ▸ hw) hv (hcw.trans hc.symm))
    have hnone := h.tidy.names.nameless (hone s rfl) hnew
    rw [← hc] at hnone
    by_cases hev : cellIsEvictable (F.cells v) = true
    · have hempty : evictableName F v = none := by rw [evictableName, if_pos hev, hnone]
      have hfilled : evictableName
          { F with registry := withName atlas F.registry (some s) coord sys } v = some s := by
        rw [evictableName, if_pos hev]
        exact (htidy.names.resolveName_iff s _).mpr ((hreg s _).mpr (.inr ⟨rfl, hc⟩))
      have hfresh : s ∉ getEvictionRing F ++ evictionQueue F := by
        rw [List.mem_append, not_or]
        exact ⟨hcall.fresh s rfl hlive hnew, h.tidy.notMem_evictionQueue hnew⟩
      exact (h.spaced hcount).fill (hcount ▸ hv) hempty hfresh hfilled hothers
    · have hqueue : evictionQueue
          { F with registry := withName atlas F.registry (some s) coord sys } =
            evictionQueue F := by
        refine List.filterMap_congr fun w hw => ?_
        by_cases hne : w = v
        · rw [hne, evictableName, evictableName, if_neg hev, if_neg hev]
        · exact hothers w (mem_order.mp hw) hne
      rw [hqueue]
      exact h.spaced hcount

/-- The victim's name goes behind the ring, the new one behind the queue. -/
theorem Circling.evicted {t : ℕ} (hcount : F.cellCount = fabricMaxCells)
    (hv : findVictim F = some t) (hfree : CoordFree F coord)
    (hcall : FullCall atlas F name coord sys)
    (hok : ∀ s, name = some s →
      (gooniesRegister atlas (evict F t).registry s coord sys).1 = Err.ok)
    (hF' : F' = publish
      { evict F t with registry := withName atlas (evict F t).registry name coord sys } t coord sys)
    (htidy : Tidy F') : Circling F' := by
  have hcount' : F'.cellCount = fabricMaxCells := by
    rw [hF']
    exact (evict_cellCount F t).trans hcount
  refine ⟨htidy, fun hroom => absurd hcount' (Nat.ne_of_lt hroom), fun _ => ?_⟩
  have hreg : ∀ s c, Registered F'.registry s c ↔
      Registered F.registry s c ∧ c ≠ (F.cells t).coord ∨ name = some s ∧ c = coord := by
    rw [hF']
    exact h.tidy.evicted_registered t (hcall.new h.tidy hfree) hok
  have hcells : F'.cells = Function.update F.cells t (freshCell coord sys) := by
    rw [hF', ← evict_cells F t]
    rfl
  obtain ⟨ht, hev⟩ := findVictim_lt hv
  obtain ⟨pre, post, hsplit, hpre⟩ := findVictim_split hv
  have hothers : ∀ v < fabricMaxCells, v ≠ t → evictableName F' v = evictableName F v := by
    intro v hv hne
    have hcell : F'.cells v = F.cells v := by rw [hcells, Function.update_of_ne hne]
    refine evictableName_congr h.tidy.names htidy.names (by rw [hcell]) (by rw [hcell]) fun s => ?_
    have hfar : (F.cells v).coord ≠ (F.cells t).coord := fun hc =>
      hne (h.tidy.fabric.coord_inj (hcount ▸ hv) (hcount ▸ ht) hc)
    have hold : (F.cells v).coord ≠ coord := hfree v (hcount ▸ hv)
    simp [hreg, hfar, hold]
  have hlog : getEvictionRing F' <:+ getEvictionRing F ++ (evictableName F t).toList := by
    have hring : getEvictionRing F' = getEvictionRing (forgetName F (F.cells t).coord) := by
      rw [hF']
      rfl
    rw [hring, evictableName, if_pos hev]
    exact getEvictionRing_forget F _
  have hlen : evictionRingSize ≤ (evictionQueue F).length := by
    rw [length_evictionQueue hcount]
    exact hcall.enough hfree
  have hcursor : F'.lastEvictionIdx = (t + 1) % fabricMaxCells := by
    rw [hF']
    rfl
  rw [evictionQueue, hcursor]
  refine (h.spaced hcount).turn hsplit hpre hothers hlog hlen fun s hs => ?_
  have hthere := evictableName_some htidy.names hs
  have hself : (F'.cells t).coord = coord := by rw [hcells, Function.update_self, freshCell]
  rw [hself, hreg] at hthere
  rcases hthere with ⟨hold, -⟩ | ⟨hname, -⟩
  · exact absurd hfree (h.tidy.live s coord hold)
  · exact h.tidy.notMem_evictionQueue (hcall.new h.tidy hfree s hname)

theorem Circling.allocated (hone : ∀ s, name = some s → OneName F.registry s coord)
    (hfull : F.cellCount = fabricMaxCells → FullCall atlas F name coord sys) (htidy : Tidy F')
    (ha : Allocated atlas F name coord sys F') : Circling F' := by
  cases ha with
  | same => exact h
  | named v hv hc => exact h.named hv hc hone hfull htidy
  | woven idx claimed hclaim hfree hok =>
    obtain ⟨-, ⟨hroom, rfl, rfl⟩ | ⟨hcount, hv, rfl⟩⟩ := h.tidy.fabric.claim hclaim
    · exact .of_quiet htidy (h.young hroom)
    · exact h.evicted hcount hv hfree (hfull hcount) hok rfl htidy

end Circle

section Step
variable {atlas : Atlas} {F F' : Fabric} {op : FabricOp}

theorem Tidy.ringStep (h : Tidy F) (hatlas : atlas heapPressureName = none)
    (hs : Guarded (RingCall atlas) (FabricStep atlas) F op F') :
    F' = F ∨
      (∃ idx cell, cell.coord = (F.cells idx).coord ∧
        (F.cellCount = fabricMaxCells → cellIsEvictable cell = cellIsEvictable (F.cells idx)) ∧
        F' = { F with cells := Function.update F.cells idx cell }) ∨
      ∃ name coord sys, (∀ s, name = some s → OneName F.registry s coord) ∧
        (F.cellCount = fabricMaxCells → FullCall atlas F name coord sys) ∧ Tidy F' ∧
        Allocated atlas F name coord sys F' := by
  obtain ⟨hcall, hs⟩ := hs
  cases hs with
  | write idx cell hc => exact .inr (.inl ⟨idx, cell, hc, hcall, rfl⟩)
  | boot cold purpose => exact hcall.elim
  | alloc lock name coord sys ret =>
    by_cases hr : Refused atlas lock F sys
    · rw [fabricAllocInternal_refused hatlas hr]
      exact .inl rfl
    · obtain ⟨hone, hfull⟩ := hcall.resolve_left hr
      have hsafe : CoordFree F coord → EvictionSafe atlas F name sys := by
        intro hfree
        rcases Nat.lt_or_eq_of_le h.fabric.count_le with hroom | hcount
        · exact .inl hroom
        · exact (hfull hcount).safe hfree
      rw [fabricAllocInternal_free hatlas hr]
      exact .inr (.inr ⟨name, coord, sys, hone, hfull, h.allocLocked hone hsafe ret,
        h.fabric.allocated ret hsafe⟩)

theorem Circling.step (h : Circling F) (hatlas : atlas heapPressureName = none)
    (hs : Guarded (RingCall atlas) (FabricStep atlas) F op F') : Circling F' := by
  rcases h.tidy.ringStep hatlas hs with rfl | ⟨idx, cell, hc, he, rfl⟩ |
    ⟨name, coord, sys, hone, hfull, htidy, ha⟩
  · exact h
  · exact h.write hc he
  · exact h.allocated hone hfull htidy ha

theorem FabricSound.allocated_cells (h : FabricSound F) {name : Option CName} {coord : Tryte9}
    {sys : Bool} (ha : Allocated atlas F name coord sys F') : F.cellCount ≤ F'.cellCount ∧
      ∀ v < F.cellCount, F'.cells v = F.cells v ∨ cellIsEvictable (F.cells v) = true := by
  cases ha with
  | same => exact ⟨le_rfl, fun v _ => .inl rfl⟩
  | named v hv hc => exact ⟨le_rfl, fun v _ => .inl rfl⟩
  | woven idx claimed hclaim hfree hok =>
    obtain ⟨hsound, hcases⟩ := h.claim hclaim
    have hothers : ∀ v, v ≠ idx → Function.update claimed.cells idx (freshCell coord sys) v =
        F.cells v := by
      intro v hne
      rw [Function.update_of_ne hne, hsound.cells]
    rcases hcases with ⟨hroom, rfl, rfl⟩ | ⟨hcount, hv, rfl⟩
    · exact ⟨Nat.le_succ _, fun v hv => .inl (hothers v (Nat.ne_of_lt hv))⟩
    · refine ⟨(evict_cellCount F idx).ge, fun v _ => ?_⟩
      by_cases hne : v = idx
      · exact .inr (hne ▸ (findVictim_lt hv).2)
      · exact .inl (hothers v hne)

/-- On a full fabric an allocation takes the name of an evictable cell or of none. -/
theorem Tidy.allocated_names (h : Tidy F) {name : Option CName} {coord : Tryte9} {sys : Bool}
    (hcount : F.cellCount = fabricMaxCells) (hcall : FullCall atlas F name coord sys)
    (ha : Allocated atlas F name coord sys F') {s : CName} {c : Tryte9}
    (hr : Registered F.registry s c) : Registered F'.registry s c ∨
      ∃ t < F.cellCount, (F.cells t).coord = c ∧ cellIsEvictable (F.cells t) = true := by
  cases ha with
  | same => exact .inl hr
  | named v hv hc =>
    refine .inl ?_
    rcases h.names.withName_placed atlas hcall.place sys with hsame | ⟨s', rfl, hnew, hok⟩
    · rwa [hsame]
    · exact (h.names.names.registered_new hnew hok s c).mpr (.inl hr)
  | woven idx claimed hclaim hfree hok =>
    obtain ⟨-, ⟨hroom, -, -⟩ | ⟨-, hv, rfl⟩⟩ := h.fabric.claim hclaim
    · exact absurd hcount (Nat.ne_of_lt hroom)
    · obtain ⟨ht, hev⟩ := findVictim_lt hv
      by_cases hc : c = (F.cells idx).coord
      · exact .inr ⟨idx, hcount ▸ ht, hc.symm, hev⟩
      · exact .inl ((h.evicted_registered idx (hcall.new h hfree) hok s c).mpr (.inl ⟨hr, hc⟩))

theorem Circling.displaced (h : Circling F) (hatlas : atlas heapPressureName = none)
    (hs : Guarded (RingCall atlas) (FabricStep atlas) F op F') {v : ℕ} (hv : v < F.cellCount)
    (hgone : getCellByCoord F' (F.cells v).coord ≠ some v) :
    cellIsEvictable (F.cells v) = true := by
  have h' := (h.step hatlas hs).tidy.fabric
  rw [Ne, h'.getCell_iff] at hgone
  rcases h.tidy.ringStep hatlas hs with rfl | ⟨idx, cell, hc, -, rfl⟩ |
    ⟨name, coord, sys, -, -, -, ha⟩
  · exact absurd ⟨hv, rfl⟩ hgone
  · exact absurd ⟨hv, update_coord hc v⟩ hgone
  · obtain ⟨hle, hcells⟩ := h.tidy.fabric.allocated_cells ha
    refine (hcells v hv).resolve_left fun hsame => hgone ⟨lt_of_lt_of_le hv hle, ?_⟩
    rw [hsame]

/-- The slot holds the cell it held, out of the cursor's reach and under its names. -/
structure Retained (F F' : Fabric) (v : ℕ) : Prop where
  count : F'.cellCount = F.cellCount
  coord : (F'.cells v).coord = (F.cells v).coord
  evictable : cellIsEvictable (F'.cells v) = false
  names : ∀ s, Registered F.registry s (F.cells v).coord →
    Registered F'.registry s (F.cells v).coord

variable {v : ℕ} (hcount : F.cellCount = fabricMaxCells) (hv : v < F.cellCount)
  (hev : cellIsEvictable (F.cells v) = false)
include hcount hv hev

theorem Circling.retain (h : Circling F) (hatlas : atlas heapPressureName = none)
    (hs : Guarded (RingCall atlas) (FabricStep atlas) F op F') : Retained F F' v := by
  rcases h.tidy.ringStep hatlas hs with rfl | ⟨idx, cell, hc, he, rfl⟩ |
    ⟨name, coord, sys, -, hfull, htidy, ha⟩
  · exact ⟨rfl, rfl, hev, fun _ hr => hr⟩
  · exact ⟨rfl, update_coord hc v, (update_evictable (he hcount) v).trans hev, fun _ hr => hr⟩
  · obtain ⟨hle, hcells⟩ := h.tidy.fabric.allocated_cells ha
    have hsame := (hcells v hv).resolve_right (by rw [hev]; exact Bool.false_ne_true)
    refine ⟨?_, by rw [hsame], by rw [hsame, hev], fun s hr => ?_⟩
    · have hmax := htidy.fabric.count_le
      omega
    · refine (h.tidy.allocated_names hcount (hfull hcount) ha hr).resolve_right ?_
      rintro ⟨t, ht, hc, het⟩
      obtain rfl := h.tidy.fabric.coord_inj ht hv hc
      rw [hev] at het
      cases het

theorem Circling.retain_run (h : Circling F) (hatlas : atlas heapPressureName = none)
    {ops : List FabricOp} (hrun : Run (Guarded (RingCall atlas) (FabricStep atlas)) F ops F') :
    Circling F' ∧ Retained F F' v := by
  induction hrun with
  | nil F => exact ⟨h, rfl, rfl, hev, fun _ hr => hr⟩
  | cons hs _ ih =>
    have hstep := h.retain hcount hv hev hatlas hs
    obtain ⟨hlast, hrest⟩ := ih (hstep.count.trans hcount) (hstep.count ▸ hv) hstep.evictable
      (h.step hatlas hs)
    refine ⟨hlast, hrest.count.trans hstep.count, hrest.coord.trans hstep.coord, hrest.evictable,
      fun s hr => ?_⟩
    have hnext := hrest.names s
    rw [hstep.coord] at hnext
    exact hnext (hstep.names s hr)

end Step

/-- Nothing was evicted, and at most `n` slots are in use. -/
def Unevicted (n : ℕ) (F : Fabric) : Prop := F.evictionCount = 0 ∧ F.cellCount ≤ n

theorem Unevicted.alloc {n : ℕ} {F : Fabric} (h : Unevicted n F) (hn : n < fabricMaxCells)
    (atlas : Atlas) (name : Option CName) (coord : Tryte9) (sys ret : Bool) :
    Unevicted (n + 1) (allocLocked atlas true F name coord sys ret).2 := by
  obtain ⟨hquiet, hle⟩ := h
  have hroom : F.cellCount < fabricMaxCells := lt_of_le_of_lt hle hn
  unfold allocLocked
  rw [Bool.not_true, if_neg Bool.false_ne_true]
  cases getCellByCoord F coord with
  | some e => cases name <;> exact ⟨hquiet, Nat.le_succ_of_le hle⟩
  | none =>
    have hclaim : claimSlot F = some (F.cellCount, { F with cellCount := F.cellCount + 1 }) :=
      if_pos hroom
    rw [hclaim]
    cases name with
    | none => exact ⟨hquiet, Nat.succ_le_succ hle⟩
    | some s =>
      dsimp only
      split
      · exact ⟨hquiet, (Nat.sub_le _ _).trans (Nat.succ_le_succ hle)⟩
      · exact ⟨hquiet, Nat.succ_le_succ hle⟩

theorem Unevicted.seed {n : ℕ} {F : Fabric} (h : Unevicted n F) (hn : n < fabricMaxCells)
    (atlas : Atlas) (name : CName) (coord : Tryte9) :
    Unevicted (n + 1) (seedCell atlas F name coord) :=
  h.alloc hn atlas (some name) coord true false

theorem Unevicted.seed_purpose {n : ℕ} {F : Fabric} (h : Unevicted n F) (hn : n < fabricMaxCells)
    (atlas : Atlas) : Unevicted (n + 1) (seedPurposeCell atlas F) := by
  have hnext : Unevicted (n + 1)
      (fabricEnsureCell atlas true F (some seedPurpose) (makeCoord 0 0 2) true).2 :=
    h.alloc hn atlas (some seedPurpose) (makeCoord 0 0 2) true true
  unfold seedPurposeCell
  dsimp only
  split
  · exact hnext
  · exact hnext

/-- A cold boot evicts nothing. -/
theorem fabricInit_quiet (atlas : Atlas) (purpose : Bool) (F : Fabric) :
    (fabricInit atlas true purpose F).evictionCount = 0 := by
  have hreset : Unevicted 0 (fabricReset true F) := ⟨rfl, le_rfl⟩
  have hseeds := (hreset.seed (by decide) atlas seedOrigin (makeCoord 0 0 0)).seed (by decide)
    atlas seedLedIntent (makeCoord 0 0 1)
  cases purpose with
  | false => exact hseeds.1
  | true => exact (hseeds.seed_purpose (by decide) atlas).1

/-- Namespace 0 with a type that was set deliberately. -/
def IsIdentity (c : Cell) : Prop :=
  c.coord 8 = 0 ∧ c.type ∈ [CellType.pinned, .systemOnly, .purpose, .hardwareIn, .hardwareOut]

instance : DecidablePred IsIdentity := fun c =>
  inferInstanceAs (Decidable (c.coord 8 = 0 ∧
    c.type ∈ [CellType.pinned, .systemOnly, .purpose, .hardwareIn, .hardwareOut]))

theorem IsIdentity.not_evictable {c : Cell} (h : IsIdentity c) : cellIsEvictable c = false := by
  obtain ⟨hns, htype⟩ := h
  unfold cellIsEvictable policyCellEvictable
  rw [hns]
  simp only [List.mem_cons, List.not_mem_nil, or_false] at htype
  rcases htype with htype | htype | htype | htype | htype <;> rw [htype] <;> rfl

/-- The cell keeps its slot, its coordinate and its name. -/
structure CellKept (F F' : Fabric) (v : ℕ) : Prop where
  slot : getCellByCoord F' (F.cells v).coord = some v
  coord : (F'.cells v).coord = (F.cells v).coord
  name : ∀ s, gooniesResolve F.registry s = some (F.cells v).coord →
    gooniesResolve F'.registry s = some (F.cells v).coord

end ReflexOS.Goose
