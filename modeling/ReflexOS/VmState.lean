import ReflexOS.GooseTypes
import ReflexOS.VmMmu
import ReflexOS.WriteBack

set_option autoImplicit false

/-!
# The state of a VM and of the host around it

The words a VM can reach live in host memory, indexed by host pointer. Everything
else the interpreter calls is a `Host`: the theorems hold for every one.
-/
namespace ReflexOS.Vm
open VmTernary VmMmu Goose

inductive Opcode where
  | tnop | tldi | tmov | tld | tst | tadd | tsub | tcmp | tsel | tjmp
  | tbrneg | tbrzero | tbrpos | tsend | trecv | tflush | tinv | tsys | thalt
  | troute | tbias | tsense
  /-- A number past `TSENSE`. -/
  | unknown (code : ℕ)
deriving DecidableEq, Repr

def Opcode.ofCode (code : ℕ) : Opcode :=
  match code with
  | 0 => .tnop | 1 => .tldi | 2 => .tmov | 3 => .tld | 4 => .tst | 5 => .tadd
  | 6 => .tsub | 7 => .tcmp | 8 => .tsel | 9 => .tjmp | 10 => .tbrneg | 11 => .tbrzero
  | 12 => .tbrpos | 13 => .tsend | 14 => .trecv | 15 => .tflush | 16 => .tinv
  | 17 => .tsys | 18 => .thalt | 19 => .troute | 20 => .tbias | 21 => .tsense
  | n => .unknown n

structure Instruction where
  opcode : Opcode
  dst : ℕ
  srcA : ℕ
  srcB : ℕ
  imm : ℤ
deriving DecidableEq, Repr

inductive Status where
  | ready
  | running
  | halted
  | faulted
deriving DecidableEq, Repr

inductive Fault where
  | none
  | invalidOpcode
  | invalidRegister
  | invalidImmediate
  | pcOutOfRange
  | arithmeticOverflow
  | invalidSyscall
  | invalidMemoryAccess
deriving DecidableEq, Repr

/-- The number of a fault in its C enumeration. -/
def Fault.code : Fault → ℤ
  | .none => 0
  | .invalidOpcode => 1
  | .invalidRegister => 2
  | .invalidImmediate => 3
  | .pcOutOfRange => 4
  | .arithmeticOverflow => 5
  | .invalidSyscall => 6
  | .invalidMemoryAccess => 7

/-- `sets` follows `REFLEX_CACHE_SET_COUNT`; the counters wrap at 32 bits. -/
structure Cache where
  sets : Fin 16 → WriteBack.Line ℕ Word18
  hits : ℕ
  misses : ℕ
  evictions : ℕ

/-- The only handler that anything in the tree installs. -/
inductive SyscallHandler where
  | default
deriving DecidableEq, Repr

def maxRoutes : ℕ := 4

structure VmState where
  status : Status
  fault : Fault
  ip : ℕ
  stepsExecuted : ℕ
  registers : Fin 8 → Word18
  /-- `none` is the NULL program. -/
  program : Option (List Instruction)
  ownsProgram : Bool
  mmu : Mmu
  ownedPrivateMemory : Option ℕ
  ownedPrivateMemoryCount : ℕ
  nodeId : ℕ
  syscallHandler : Option SyscallHandler
  cache : Option Cache
  routeManifest : Fin 4 → Route
  routeCount : ℕ

def VmState.programLength (vm : VmState) : ℕ := (vm.program.getD []).length

structure Message where
  toNode : ℕ
  fromNode : ℕ
  op : ℕ
  payload : Word18

/-- What the interpreter and its syscalls call. `W` is the state behind them. -/
structure Host (W : Type*) where
  fabricSend : Message → W → Err × W
  fabricRecv : ℕ → W → Except Err Message × W
  fabricGetCell : CName → W → Option ℕ × W
  fabricGetCellByCoord : Tryte9 → W → Option ℕ
  cellAt : ℕ → W → Cell
  gpioConnectOut : Route → W → W
  timeUs : W → ℕ
  configDeviceName : W → Except Err CName
  configLogLevel : W → Except Err ℤ
  printLog : ℤ → W → W
  taskDelayMs : ℕ → W → W
  /-- Room for a decoded program. -/
  mallocInstructions : ℕ → W → Bool × W
  /-- Room for data words, as a host pointer. -/
  callocWords : ℕ → W → Option ℕ × W
  /-- What the `int32_t` locals of a step hold before they are written. -/
  uninitialised : ℕ → W → ℤ

/-- A host where nothing is connected. -/
def quietHost : Host Unit where
  fabricSend _ w := (Err.ok, w)
  fabricRecv _ w := (.error Err.notFound, w)
  fabricGetCell _ w := (none, w)
  fabricGetCellByCoord _ _ := none
  cellAt _ _ := zeroCell
  gpioConnectOut _ w := w
  timeUs _ := 0
  configDeviceName _ := .error Err.notFound
  configLogLevel _ := .error Err.notFound
  printLog _ w := w
  taskDelayMs _ w := w
  mallocInstructions _ w := (true, w)
  callocWords _ w := (some 64, w)
  uninitialised _ _ := 0

structure Machine (W : Type*) where
  vm : VmState
  mem : ℕ → Word18
  world : W

variable {W : Type*}

def Machine.setReg (m : Machine W) (r : Fin 8) (w : Word18) : Machine W :=
  { m with vm := { m.vm with registers := Function.update m.vm.registers r w } }

def memGetRaw (m : Machine W) (index : ℕ) : Except Err Word18 :=
  match mmuTranslate m.vm.mmu index with
  | .error e => .error e
  | .ok p => .ok (m.mem p)

def memSetRaw (m : Machine W) (index : ℕ) (w : Word18) : Except Err (Machine W) :=
  match mmuTranslate m.vm.mmu index with
  | .error e => .error e
  | .ok p => .ok { m with mem := Function.update m.mem p w }

/-- The word a VM address stands for, and a stray value outside the map. -/
def Machine.word (m : Machine W) (addr : ℕ) : Word18 :=
  match memGetRaw m addr with
  | .ok w => w
  | .error _ => zeroWord

@[simp] theorem setReg_mmu (m : Machine W) (r : Fin 8) (w : Word18) :
    (m.setReg r w).vm.mmu = m.vm.mmu := rfl

@[simp] theorem setReg_cache (m : Machine W) (r : Fin 8) (w : Word18) :
    (m.setReg r w).vm.cache = m.vm.cache := rfl

@[simp] theorem setReg_mem (m : Machine W) (r : Fin 8) (w : Word18) :
    (m.setReg r w).mem = m.mem := rfl

theorem memGetRaw_mapped {m : Machine W} {a : ℕ} (h : a ∈ Mapped m.vm.mmu) :
    memGetRaw m a = .ok (m.word a) := by
  obtain ⟨p, hp⟩ := h
  simp [Machine.word, memGetRaw, hp]

theorem memSetRaw_vm {m m' : Machine W} {a : ℕ} {w : Word18} (h : memSetRaw m a w = .ok m') :
    m'.vm = m.vm ∧ m'.world = m.world := by
  unfold memSetRaw at h
  split at h
  · cases h
  · cases h
    exact ⟨rfl, rfl⟩

/-- A raw store to a mapped address changes the word there and no other. -/
theorem memSetRaw_mapped {m : Machine W} (hd : BuffersDisjoint m.vm.mmu) {a : ℕ}
    (h : a ∈ Mapped m.vm.mmu) (w : Word18) :
    ∃ m', memSetRaw m a w = .ok m' ∧ m'.vm = m.vm ∧ m'.world = m.world ∧
      ∀ b ∈ Mapped m.vm.mmu, m'.word b = Function.update m.word a w b := by
  obtain ⟨p, hp⟩ := h
  refine ⟨{ m with mem := Function.update m.mem p w }, by simp [memSetRaw, hp], rfl, rfl, ?_⟩
  rintro b ⟨q, hq⟩
  by_cases hab : b = a
  · subst b
    simp [Machine.word, memGetRaw, hp]
  · have hqp : q ≠ p := by
      rintro rfl
      exact hab (translate_injective hd hq hp)
    simp [Machine.word, memGetRaw, hq, hqp, hab]

end ReflexOS.Vm
