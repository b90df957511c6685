import ReflexOS.GooseRegistry

set_option autoImplicit false

/-!
# The fabric: cells, coordinate index and names

`lattice` and `cells` survive deep sleep, the registry and the eviction cursor do not.
-/
namespace ReflexOS.Goose
open VmTernary

def fabricMaxCells : ℕ := 256
def latticeBuckets : ℕ := 503
def registryBuckets : ℕ := 503
def evictionRingSize : ℕ := 8

structure Fabric where
  cells : ℕ → Cell
  lattice : Slots
  cellCount : ℕ
  version : ℕ
  latticeStable : Bool
  registry : Registry
  lastEvictionIdx : ℕ
  evictionCount : ℕ
  evictionRing : ℕ → CName
  evictionRingIdx : ℕ

structure ShadowEntry where
  addr : ℕ
  mask : ℕ
  coord : Tryte9
  type : CellType

/-- The catalogue in flash. -/
abbrev Atlas := CName → Option ShadowEntry

def nsSys : CName := ascii "sys."
def nsAgency : CName := ascii "agency."
def nsPeer : CName := ascii "peer."

/-- Names only system weavers may register. -/
def isProtected (atlas : Atlas) (name : CName) : Bool :=
  nsSys.isPrefixOf name || nsAgency.isPrefixOf name || (atlas name).isSome

def gooniesRegister (atlas : Atlas) (reg : Registry) (name : CName) (coord : Tryte9)
    (isSystemWeaving : Bool) : Err × Registry :=
  if fabricMaxCells ≤ reg.count then (Err.noMem, reg)
  else if name.length < 3 ∨ registryNameMax ≤ name.length then (Err.invalidArg, reg)
  else
    match registryFindName reg name with
    | some idx =>
      if isProtected atlas name && !isSystemWeaving then (Err.invalidState, reg)
      else (Err.ok, registrySetCoord reg idx coord)
    | none =>
      if isProtected atlas name && !isSystemWeaving then (Err.notSupported, reg)
      else
        match registryAdd reg name coord with
        | none => (Err.noMem, reg)
        | some added => (Err.ok, added.2)

def gooniesResolve (reg : Registry) (name : CName) : Option Tryte9 :=
  (registryFindName reg name).map fun idx => (reg.entries idx).coord

def gooniesResolveNameByCoord (reg : Registry) (coord : Tryte9) : Option CName :=
  (registryFindCoord reg coord).map fun idx => (reg.entries idx).name

def getCellByCoord (F : Fabric) (coord : Tryte9) : Option ℕ :=
  if F.latticeStable then latticeFind latticeBuckets F.lattice F.cells F.cellCount coord
  else none

/-- The retention policy: by namespace, and by type only in namespace 0. -/
def policyCellEvictable (type : CellType) (namespaceTrit : ℤ) : Bool :=
  if namespaceTrit = 1 ∨ namespaceTrit = -1 then true
  else
    match type with
    | .pinned | .systemOnly | .purpose => false
    | .hardwareIn | .hardwareOut => false
    | _ => true

def cellIsEvictable (c : Cell) : Bool := policyCellEvictable c.type (c.coord 8)

/-- Round robin from the eviction cursor. -/
def findVictim (F : Fabric) : Option ℕ :=
  ((List.range fabricMaxCells).map fun i => (F.lastEvictionIdx + i) % fabricMaxCells).find?
    fun target => cellIsEvictable (F.cells target)

/-- The victim's name goes into the ring and out of the registry. -/
def forgetName (F : Fabric) (coord : Tryte9) : Fabric :=
  match registryFindCoord F.registry coord with
  | none => F
  | some g =>
    { F with
      evictionRing := Function.update F.evictionRing (F.evictionRingIdx % evictionRingSize)
        (F.registry.entries g).name
      evictionRingIdx := (F.evictionRingIdx + 1) % 2 ^ 32
      evictionCount := (F.evictionCount + 1) % 2 ^ 32
      registry := (registryRemoveCoord F.registry coord).2 }

def evict (F : Fabric) (target : ℕ) : Fabric :=
  let coord := (F.cells target).coord
  let F := forgetName F coord
  { F with
    lattice := latticeRemove latticeBuckets F.lattice F.cells F.cellCount coord
    lastEvictionIdx := (target + 1) % fabricMaxCells }

/-- A slot for a new cell: the next one, or a victim's. -/
def claimSlot (F : Fabric) : Option (ℕ × Fabric) :=
  if F.cellCount < fabricMaxCells then
    some (F.cellCount, { F with cellCount := F.cellCount + 1 })
  else (findVictim F).map fun target => (target, evict F target)

def freshCell (coord : Tryte9) (isSystemWeaving : Bool) : Cell :=
  { zeroCell with coord := coord, type := if isSystemWeaving then .pinned else .virtual }

def publish (F : Fabric) (idx : ℕ) (coord : Tryte9) (isSystemWeaving : Bool) : Fabric :=
  let cells := Function.update F.cells idx (freshCell coord isSystemWeaving)
  { F with
    cells := cells
    lattice := (latticeInsert latticeBuckets F.lattice cells F.cellCount coord idx).1
    version := (F.version + 1) % 2 ^ 32 }

/-- `fabric_alloc_internal` from the locks on; `lock` is whether the loom was free. -/
def allocLocked (atlas : Atlas) (lock : Bool) (F : Fabric) (name : Option CName)
    (coord : Tryte9) (isSystemWeaving returnExisting : Bool) : Option ℕ × Fabric :=
  if !lock then (none, F)
  else
    match getCellByCoord F coord with
    | some existing =>
      let F := match name with
        | none => F
        | some s => { F with
            registry := (gooniesRegister atlas F.registry s coord isSystemWeaving).2 }
      (if returnExisting then some existing else none, F)
    | none =>
      match claimSlot F with
      | none => (none, F)
      | some (idx, claimed) =>
        match name with
        | none => (some idx, publish claimed idx coord isSystemWeaving)
        | some s =>
          let registered := gooniesRegister atlas claimed.registry s coord isSystemWeaving
          if registered.1 ≠ Err.ok then
            (none, { claimed with
              registry := registered.2
              cellCount :=
                if F.cellCount < fabricMaxCells then claimed.cellCount - 1
                else claimed.cellCount })
          else (some idx, publish { claimed with registry := registered.2 } idx coord
            isSystemWeaving)

def agencyGpioMax : ℕ := 31
def agencyMmioBase : ℕ := 0x60000000

/-- The pages that are not on the whitelist. -/
def addrIsSanctuary (addr : ℕ) : Bool :=
  !([0x60091000, 0x60007000, 0x60006000, 0x60000000, 0x60001000, 0x60004000, 0x60003000,
    0x6000C000, 0x6000E000].contains (addr / 2 ^ 12 * 2 ^ 12))

def setAgency (cell : Cell) (hardwareAddr : ℕ) (type : CellType) : Err × Cell :=
  if cell.type = .fieldProxy then (Err.notSupported, cell)
  else if agencyMmioBase ≤ hardwareAddr then
    if addrIsSanctuary hardwareAddr && decide (type ≠ .systemOnly) then (Err.notSupported, cell)
    else (Err.ok, { cell with hardwareAddr := hardwareAddr, type := type })
  else if hardwareAddr = 0 then (Err.invalidArg, cell)
  else if agencyGpioMax < hardwareAddr then (Err.invalidArg, cell)
  else (Err.ok, { cell with hardwareAddr := hardwareAddr, type := type })

theorem setAgency_coord (c : Cell) (addr : ℕ) (type : CellType) :
    (setAgency c addr type).2.coord = c.coord := by
  unfold setAgency
  split_ifs <;> rfl

theorem update_coord {cells : ℕ → Cell} {idx : ℕ} {c : Cell} (hc : c.coord = (cells idx).coord)
    (v : ℕ) : (Function.update cells idx c v).coord = (cells v).coord := by
  by_cases hv : v = idx
  · subst hv
    rw [Function.update_self, hc]
  · rw [Function.update_of_ne hv]

/-- `goonies_resolve_cell` for a name outside `peer.`: the registry, then the catalogue. -/
def resolveCell (atlas : Atlas) (lock : Bool) (F : Fabric) (name : CName) :
    Option ℕ × Fabric :=
  match gooniesResolve F.registry name with
  | some coord => (getCellByCoord F coord, F)
  | none =>
    match atlas name with
    | none => (none, F)
    | some e =>
      let paged := allocLocked atlas lock F (some name) e.coord true false
      match paged.1 with
      | none => paged
      | some idx =>
        let F := paged.2
        let cell := (setAgency (F.cells idx) e.addr e.type).2
        (some idx, { F with cells := Function.update F.cells idx { cell with bitMask := e.mask } })

def heapPressureName : CName := ascii "perception.heap.pressure"

/-- Whether a non-system allocation is refused while the heap is tight. -/
def heapPressure (atlas : Atlas) (lock : Bool) (F : Fabric) : Bool × Fabric :=
  let resolved := resolveCell atlas lock F heapPressureName
  (match resolved.1 with
    | none => false
    | some idx => decide ((resolved.2.cells idx).state = -1), resolved.2)

def fabricAllocInternal (atlas : Atlas) (lock : Bool) (F : Fabric) (name : Option CName)
    (coord : Tryte9) (isSystemWeaving returnExisting : Bool) : Option ℕ × Fabric :=
  if isSystemWeaving then allocLocked atlas lock F name coord true returnExisting
  else
    let pressed := heapPressure atlas lock F
    if pressed.1 then (none, pressed.2)
    else allocLocked atlas lock pressed.2 name coord false returnExisting

def fabricAllocCell (atlas : Atlas) (lock : Bool) (F : Fabric) (name : Option CName)
    (coord : Tryte9) (isSystemWeaving : Bool) : Option ℕ × Fabric :=
  fabricAllocInternal atlas lock F name coord isSystemWeaving false

def fabricEnsureCell (atlas : Atlas) (lock : Bool) (F : Fabric) (name : Option CName)
    (coord : Tryte9) (isSystemWeaving : Bool) : Option ℕ × Fabric :=
  fabricAllocInternal atlas lock F name coord isSystemWeaving true

def makeCoord (field region cell : ℤ) : Tryte9 := fun i =>
  if i = 0 then field else if i = 3 then region else if i = 6 then cell else 0

def seedOrigin : CName := ascii "sys.origin"
def seedLedIntent : CName := ascii "agency.led.intent"
def seedPurpose : CName := ascii "sys.purpose"

/-- The coordinate index rebuilt from the retained cells. -/
def rebuildLattice (cells : ℕ → Cell) (count : ℕ) : ℕ → Slots
  | 0 => latticeClear
  | i + 1 =>
    (latticeInsert latticeBuckets (rebuildLattice cells count i) cells count
      (cells i).coord i).1

/-- `goose_fabric_init` up to the seeds; `cold` is the source's test for a cold boot. -/
def fabricReset (cold : Bool) (F : Fabric) : Fabric :=
  { cells := F.cells
    lattice := if cold then latticeClear else rebuildLattice F.cells F.cellCount F.cellCount
    cellCount := if cold then 0 else F.cellCount
    version := if cold then 1 else F.version
    latticeStable := true
    registry := registryInit (fun _ => zeroEntry) fabricMaxCells registryBuckets
    lastEvictionIdx := 0
    evictionCount := 0
    evictionRing := fun _ => []
    evictionRingIdx := 0 }

def seedCell (atlas : Atlas) (F : Fabric) (name : CName) (coord : Tryte9) : Fabric :=
  (fabricAllocCell atlas true F (some name) coord true).2

def seedPurposeCell (atlas : Atlas) (F : Fabric) : Fabric :=
  let ensured := fabricEnsureCell atlas true F (some seedPurpose) (makeCoord 0 0 2) true
  match ensured.1 with
  | none => ensured.2
  | some idx =>
    { ensured.2 with
      cells := Function.update ensured.2.cells idx
        { ensured.2.cells idx with type := .purpose, state := 1 } }

/-- `purpose` is whether a purpose name was stored. -/
def fabricInit (atlas : Atlas) (cold purpose : Bool) (F : Fabric) : Fabric :=
  let F := fabricReset cold F
  let F := seedCell atlas F seedOrigin (makeCoord 0 0 0)
  let F := seedCell atlas F seedLedIntent (makeCoord 0 0 1)
  if purpose then seedPurposeCell atlas F else F

end ReflexOS.Goose
