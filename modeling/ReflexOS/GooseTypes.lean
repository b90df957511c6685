import ReflexOS.VmTernary

set_option autoImplicit false

/-!
# Cells, routes and fields of the GOOSE substrate
-/
namespace ReflexOS.Goose
open VmTernary

inductive Coupling where
  | hardware
  | software
  | async
  | radio
  | dma
  | silicon
deriving DecidableEq, Repr

inductive CellType where
  | virtual
  | hardwareIn
  | hardwareOut
  | intent
  | systemOnly
  | pinned
  | fieldProxy
  | neuron
  | need
  | purpose
deriving DecidableEq, Repr

structure Cell where
  coord : Tryte9
  state : ℤ
  type : CellType
  peerId : ℕ
  hardwareAddr : ℕ
  bitMask : ℕ
deriving DecidableEq

/-- The cached cells are indexes into the fabric, as the pointers of the source are. -/
structure Route where
  name : CName
  sourceCoord : Tryte9
  sinkCoord : Tryte9
  orientation : ℤ
  learnedOrientation : ℤ
  controlCoord : Tryte9
  coupling : Coupling
  cachedSource : Option ℕ
  cachedSink : Option ℕ
  cachedControl : Option ℕ
  cachedVersion : ℕ
  hebbianCounter : ℤ
deriving DecidableEq

def zeroCoord : Tryte9 := fun _ => 0

/-- A zeroed `goose_cell_t`. -/
def zeroCell : Cell := ⟨zeroCoord, 0, .virtual, 0, 0, 0⟩

/-- A zeroed `goose_route_t`; the zero coupling is `GOOSE_COUPLING_HARDWARE`. -/
def zeroRoute : Route :=
  ⟨[], zeroCoord, zeroCoord, 0, 0, zeroCoord, .hardware, none, none, none, 0, 0⟩

end ReflexOS.Goose
