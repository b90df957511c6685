import ReflexOS.GooseAtmosphere

set_option autoImplicit false

/-!
# Metabolic regulation

The vital cells and the circuit breaker over them: degradation is immediate, recovery takes
a sustained improvement for each level.
-/
namespace ReflexOS.Goose
open VmTernary

def metabolicHeapCritical : ℕ := 8192
def metabolicHeapTight : ℕ := 16384
def metabolicMeshIsolatedTicks : ℕ := 20
def metabolicMeshSparseThreshold : ℕ := 2
def metabolicRecoveryTicks : ℕ := 30

def tempReadingName : CName := ascii "perception.temp.reading"
def batteryName : CName := ascii "perception.power.battery"
def meshHealthName : CName := ascii "perception.mesh.health"
def metabolicName : CName := ascii "sys.metabolic"

/-- The arcs of the window in progress and of the last complete one. -/
structure MeshWindow where
  idleTicks : ℕ
  windowArcs : ℕ
  windowTicks : ℕ
  windowLast : ℕ

/-- An override is the value it puts in a vital's place. -/
structure Metabolism where
  tempCell : Option ℕ
  battCell : Option ℕ
  meshCell : Option ℕ
  heapCell : Option ℕ
  metabolicCell : Option ℕ
  overrideTemp : Option ℤ
  overrideBatt : Option ℤ
  overrideMesh : Option ℤ
  overrideHeap : Option ℤ
  lastRxTotal : ℕ
  meshWindow : MeshWindow
  metabolicState : ℤ
  recoveryTicks : ℕ

def computeHeapState (freeBytes : ℕ) : ℤ :=
  if freeBytes < metabolicHeapCritical then -1 else if freeBytes < metabolicHeapTight then 0 else 1

def advanceWindow (w : MeshWindow) (delta isolatedTicks : ℕ) : MeshWindow :=
  let idleTicks := if delta = 0 then (w.idleTicks + 1) % 2 ^ 32 else 0
  let windowArcs := (w.windowArcs + delta) % 2 ^ 32
  let windowTicks := (w.windowTicks + 1) % 2 ^ 32
  if isolatedTicks ≤ windowTicks then ⟨idleTicks, 0, 0, windowArcs⟩
  else ⟨idleTicks, windowArcs, windowTicks, w.windowLast⟩

def policyMeshState (w : MeshWindow) (delta isolatedTicks sparseThreshold : ℕ) : ℤ × MeshWindow :=
  let isolatedTicks := if isolatedTicks < 2 then 2 else isolatedTicks
  let w := advanceWindow w delta isolatedTicks
  (if isolatedTicks ≤ w.idleTicks then -1
    else if sparseThreshold ≤ (w.windowArcs + w.windowLast) % 2 ^ 32 then 1
    else 0, w)

def rxTotal (stats : MeshStats) : ℕ :=
  (stats.rxSync + stats.rxQuery + stats.rxDiscover + stats.rxAdvertise + stats.rxPosture +
    stats.rxMmioSync) % 2 ^ 32

def computeMeshState (stats : MeshStats) (E : Metabolism) : ℤ × Metabolism :=
  let delta := (rxTotal stats + 2 ^ 32 - E.lastRxTotal) % 2 ^ 32
  let judged := policyMeshState E.meshWindow delta metabolicMeshIsolatedTicks
    metabolicMeshSparseThreshold
  (judged.1, { E with lastRxTotal := rxTotal stats, meshWindow := judged.2 })

/-- Battery and heap are hard constraints, temperature a soft one. -/
def rawMetabolic (temp batt heap : ℤ) : ℤ :=
  let low (vital : ℤ) : ℕ := if vital = -1 then 1 else 0
  if 1 ≤ low batt + low heap ∨ 2 ≤ low temp + low batt + low heap then -1
  else if 1 ≤ low temp + low batt + low heap then 0
  else 1

def computeCircuitBreaker (temp batt heap : ℤ) (E : Metabolism) : Metabolism :=
  let raw := rawMetabolic temp batt heap
  if raw < E.metabolicState then { E with metabolicState := raw, recoveryTicks := 0 }
  else if E.metabolicState < raw then
    if metabolicRecoveryTicks ≤ (E.recoveryTicks + 1) % 2 ^ 32 then
      { E with metabolicState := i8 (E.metabolicState + 1), recoveryTicks := 0 }
    else { E with recoveryTicks := (E.recoveryTicks + 1) % 2 ^ 32 }
  else { E with recoveryTicks := 0 }

/-- A cell whose state starts at a default; its type is that of a new cell. -/
def seedVital (atlas : Atlas) (lock : Bool) (F : Fabric) (name : CName) (coord : Tryte9)
    (state : ℤ) : Option ℕ × Fabric :=
  let ensured := fabricEnsureCell atlas lock F (some name) coord true
  match ensured.1 with
  | none => ensured
  | some v => (some v, ensured.2.setState v state)

/-- `goose_metabolic_init`. -/
def metabolicInit (atlas : Atlas) (lock : Bool) (F : Fabric) (E : Metabolism) :
    Fabric × Metabolism :=
  let temp := resolveCell atlas lock F tempReadingName
  let batt := seedVital atlas lock temp.2 batteryName (makeCoord (-1) 4 1) 1
  let mesh := seedVital atlas lock batt.2 meshHealthName (makeCoord (-1) 4 2) 0
  let heap := seedVital atlas lock mesh.2 heapPressureName (makeCoord (-1) 4 (-1)) 1
  let metabolic := seedSystemOnly atlas lock heap.2 metabolicName (makeCoord 0 0 3) 1
  (metabolic.2, { E with
    tempCell := temp.1
    battCell := batt.1
    meshCell := mesh.1
    heapCell := heap.1
    metabolicCell := metabolic.1
    metabolicState := 1 })

/-- What a vital reads: its override, its cell, or a default where there is none. -/
def readVital (F : Fabric) (override : Option ℤ) (cell : Option ℕ) (default : ℤ) : ℤ :=
  override.getD ((cell.map fun v => (F.cells v).state).getD default)

def writeVital (F : Fabric) (cell : Option ℕ) (state : ℤ) : Fabric :=
  match cell with
  | none => F
  | some v => F.setState v state

/-- The mesh is scanned only where its cell is written. -/
def scanMesh (stats : MeshStats) (F : Fabric) (E : Metabolism) : Fabric × Metabolism :=
  if E.overrideMesh.isNone && E.meshCell.isSome then
    let mesh := computeMeshState stats E
    (writeVital F E.meshCell mesh.1, mesh.2)
  else (F, E)

/-- `goose_metabolic_sync`. -/
def metabolicSync (freeBytes : ℕ) (stats : MeshStats) (F : Fabric) (E : Metabolism) :
    Fabric × Metabolism :=
  let F := if E.overrideHeap.isNone then writeVital F E.heapCell (computeHeapState freeBytes) else F
  let scanned := scanMesh stats F E
  let F := scanned.1
  let temp := readVital F E.overrideTemp E.tempCell 0
  let batt := readVital F E.overrideBatt E.battCell 1
  let heap := readVital F E.overrideHeap E.heapCell 1
  let E := computeCircuitBreaker temp batt heap scanned.2
  (writeVital F E.metabolicCell E.metabolicState, E)

inductive Vital where
  | temp
  | battery
  | mesh
  | heap
deriving DecidableEq, Repr

def vitalOf (name : CName) : Option Vital :=
  if name = ascii "temp" then some .temp
  else if name = ascii "battery" then some .battery
  else if name = ascii "mesh" then some .mesh
  else if name = ascii "heap" then some .heap
  else none

/-- `goose_metabolic_override`. -/
def metabolicOverride (vital : CName) (state : ℤ) (E : Metabolism) : Err × Metabolism :=
  if state < -1 ∨ 1 < state then (Err.invalidArg, E)
  else
    match vitalOf vital with
    | none => (Err.invalidArg, E)
    | some .temp => (Err.ok, { E with overrideTemp := some state })
    | some .battery => (Err.ok, { E with overrideBatt := some state })
    | some .mesh => (Err.ok, { E with overrideMesh := some state })
    | some .heap => (Err.ok, { E with overrideHeap := some state })

/-- `goose_metabolic_clear_overrides`. -/
def metabolicClearOverrides (F : Fabric) (E : Metabolism) : Fabric × Metabolism :=
  (writeVital F E.metabolicCell 1, { E with
    overrideTemp := none
    overrideBatt := none
    overrideMesh := none
    overrideHeap := none
    metabolicState := 1
    recoveryTicks := 0 })

end ReflexOS.Goose
