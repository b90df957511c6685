import ReflexOS.VmCache

set_option autoImplicit false

/-!
# The interpreter

`vmStep` returns `none` only where the source indexes the register file out of bounds,
which C leaves undefined.
-/
namespace ReflexOS.Vm
open VmTernary VmMmu Goose

variable {W : Type*}

def withReg {α : Type*} (index : ℕ) (k : Fin 8 → Option α) : Option α :=
  if h : index < 8 then k ⟨index, h⟩ else none

theorem withReg_eq_some {α : Type*} {index : ℕ} {k : Fin 8 → Option α} {x : α}
    (h : withReg index k = some x) : ∃ hi : index < 8, k ⟨index, hi⟩ = some x := by
  unfold withReg at h
  split at h
  next hi => exact ⟨hi, h⟩
  next => simp at h

def Machine.setStatus (m : Machine W) (s : Status) : Machine W :=
  { m with vm := { m.vm with status := s } }

def vmFault (m : Machine W) (f : Fault) : Err × Machine W :=
  (Err.fail, { m with vm := { m.vm with status := .faulted, fault := f } })

/-- Control reaches the end of the step. -/
def vmProceed (m : Machine W) : Err × Machine W :=
  (Err.ok, if m.vm.status = .running then m.setStatus .ready else m)

def validateState (vm : VmState) : Err :=
  if vm.program = none then Err.invalidState
  else if vm.programLength = 0 then Err.invalidState
  else if vm.programLength ≤ vm.ip then Fault.pcOutOfRange.code
  else Err.ok

def registerIndexValid (index : ℕ) : Bool := decide (index < 8)

def validateRegisters (i : Instruction) : Bool :=
  match i.opcode with
  | .tnop | .thalt | .tjmp | .tflush | .unknown _ => true
  | .tldi | .trecv => registerIndexValid i.dst
  | .tmov | .tbias | .tld | .tst | .tsend =>
    registerIndexValid i.dst && registerIndexValid i.srcA
  | .tadd | .tsub | .tcmp | .tsel | .tsys | .troute =>
    registerIndexValid i.dst && registerIndexValid i.srcA && registerIndexValid i.srcB
  | .tbrneg | .tbrzero | .tbrpos | .tsense | .tinv => registerIndexValid i.srcA

def branchTrit (w : Word18) : ℤ := w 0

def vmJump (m : Machine W) (target : ℤ) : Err × Machine W :=
  if target < 0 ∨ m.vm.programLength ≤ u32 target then vmFault m .pcOutOfRange
  else (Err.ok, { m with vm := { m.vm with ip := u32 target } })

/-- A local filled by `reflex_word18_to_int32` with its result ignored. -/
def scalarOf (host : Host W) (m : Machine W) (slot : ℕ) (w : Word18) : ℤ :=
  match word18ToInt32 w with
  | .ok v => v
  | .error _ => host.uninitialised slot m.world

/-- The characters at `addr`, at most `n`; `none` where the read fails. -/
def vmGetString (host : Host W) (m : Machine W) (addr : ℕ) : ℕ → Option CName
  | 0 => some []
  | n + 1 =>
    match memGetRaw m (addr % 2 ^ 32) with
    | .error _ => none
    | .ok w =>
      let v := scalarOf host m n w
      if v = 0 then some []
      else (vmGetString host m (addr + 1) n).map (UInt8.ofNat (u8 v) :: ·)

/-- A buffer read as a C string. -/
def cString (l : CName) : CName := l.takeWhile (· ≠ 0)

def vmName (host : Host W) (m : Machine W) (addr : ℤ) : Option CName :=
  (vmGetString host m (u32 addr) 15).map cString

def coordOf (w : Word18) : Tryte9 := fun i => w (i.castLE (by decide))

def setInt32 (m : Machine W) (r : Fin 8) (value : ℤ) : Machine W :=
  match word18FromInt32 value with
  | .ok w => m.setReg r w
  | .error _ => m

def defaultSyscall (host : Host W) (id : ℤ) (srcA : Word18) (w : W) :
    Except Err Word18 × W :=
  if id = 0 then
    match word18ToInt32 srcA with
    | .error e => (.error e, w)
    | .ok scalar => (word18FromInt32 0, host.printLog scalar w)
  else if id = 1 then (word18FromInt32 (i32 (host.timeUs w / 1000)), w)
  else if id = 2 then
    match word18ToInt32 srcA with
    | .error e => (.error e, w)
    | .ok scalar =>
      if scalar = 0 then
        match host.configDeviceName w with
        | .error e => (.error e, w)
        | .ok name => (word18FromInt32 name.length, w)
      else if scalar = 1 then
        match host.configLogLevel w with
        | .error e => (.error e, w)
        | .ok level => (word18FromInt32 level, w)
      else (.error Err.notSupported, w)
  else if id = 3 then
    match word18ToInt32 srcA with
    | .error e => (.error e, w)
    | .ok scalar =>
      if scalar < 0 then (.error Err.invalidArg, w)
      else (word18FromInt32 0, host.taskDelayMs (u32 scalar) w)
  else (.error Err.notSupported, w)

def applyRoute (host : Host W) (r : Route) (w : W) : W :=
  if r.coupling = .hardware then host.gpioConnectOut r w else w

/-- An arithmetic opcode: the result into `d`, or the fault. -/
def writeResult (m : Machine W) (d : Fin 8) (f : Fault) (r : Except Err Word18) :
    Err × Machine W :=
  match r with
  | .ok w => vmProceed (m.setReg d w)
  | .error _ => vmFault m f

def execTcmp (m : Machine W) (d a b : Fin 8) : Err × Machine W :=
  match word18Compare (m.vm.registers a) (m.vm.registers b) with
  | .error _ => vmFault m .arithmeticOverflow
  | .ok c => vmProceed (m.setReg d (Function.update zeroWord 0 c))

/-- The three bits of the immediate from bit `shift` on, as a register number. -/
def immRegister (imm : ℤ) (shift : ℕ) : Fin 8 :=
  ⟨u32 imm / 2 ^ shift % 8, Nat.mod_lt _ (by decide)⟩

def execTsel (m : Machine W) (d a b : Fin 8) (imm : ℤ) : Err × Machine W :=
  let regs := m.vm.registers
  writeResult m d .arithmeticOverflow
    (word18Select (branchTrit (regs a)) (regs (immRegister imm 0)) (regs b)
      (regs (immRegister imm 3)))

def execBranch (m : Machine W) (a : Fin 8) (sign imm : ℤ) : Err × Machine W :=
  if branchTrit (m.vm.registers a) = sign then vmJump m imm else vmProceed m

def execTsend (host : Host W) (m : Machine W) (d a : Fin 8) (imm : ℤ) : Err × Machine W :=
  match word18ToInt32 (m.vm.registers d) with
  | .error e => (e, m)
  | .ok target =>
    if target < 0 ∨ target > 255 then vmFault m .invalidImmediate
    else
      let sent := host.fabricSend ⟨u8 target, m.vm.nodeId, u8 imm, m.vm.registers a⟩ m.world
      let m := { m with world := sent.2 }
      if sent.1 = Err.ok then vmProceed m else vmFault m .invalidSyscall

/-- Every error of the fabric but NOT_FOUND leaves the register alone and is dropped. -/
def execTrecv (host : Host W) (m : Machine W) (d : Fin 8) : Err × Machine W :=
  let received := host.fabricRecv m.vm.nodeId m.world
  let m := { m with world := received.2 }
  match received.1 with
  | .ok msg => vmProceed (m.setReg d msg.payload)
  | .error e => vmProceed (if e = Err.notFound then m.setReg d zeroWord else m)

def execTsys (host : Host W) (m : Machine W) (d a : Fin 8) (imm : ℤ) : Err × Machine W :=
  match m.vm.syscallHandler with
  | none => vmFault m .invalidSyscall
  | some .default =>
    let called := defaultSyscall host imm (m.vm.registers a) m.world
    writeResult { m with world := called.2 } d .invalidSyscall called.1

def vmLoad (m : Machine W) (addr : ℕ) : Except Err Word18 × Machine W :=
  if m.vm.cache.isSome then cacheLoad m addr else (memGetRaw m addr, m)

def vmStore (m : Machine W) (addr : ℕ) (w : Word18) : Err × Machine W :=
  if m.vm.cache.isSome then cacheStore m addr w
  else
    match memSetRaw m addr w with
    | .error e => (e, m)
    | .ok m' => (Err.ok, m')

def execTld (m : Machine W) (d a : Fin 8) : Err × Machine W :=
  match word18ToInt32 (m.vm.registers a) with
  | .error e => (e, m)
  | .ok addr =>
    match vmLoad m (u32 addr) with
    | (.error _, m) => vmFault m .invalidMemoryAccess
    | (.ok w, m) => vmProceed (m.setReg d w)

def execTst (m : Machine W) (d a : Fin 8) : Err × Machine W :=
  match word18ToInt32 (m.vm.registers d) with
  | .error e => (e, m)
  | .ok addr =>
    match vmStore m (u32 addr) (m.vm.registers a) with
    | (e, m) => if e = Err.ok then vmProceed m else vmFault m .invalidMemoryAccess

/-- TFLUSH and TINV: the cache operation's own result is dropped. -/
def execCacheOp (op : Machine W → ℕ → Err × Machine W) (m : Machine W) (a : Fin 8) :
    Err × Machine W :=
  match word18ToInt32 (m.vm.registers a) with
  | .error e => (e, m)
  | .ok addr => vmProceed (if m.vm.cache.isSome then (op m (u32 addr)).2 else m)

def routeName (count : ℕ) : CName := ascii "vm_r" ++ ascii (toString count)

/-- The fields TROUTE sets; the others keep what the slot held. -/
def openRoute (r : Route) (count : ℕ) (source sink : Tryte9) : Route :=
  { r with
    name := routeName count
    sourceCoord := source
    sinkCoord := sink
    orientation := 1
    coupling := .software }

def routeEnds (host : Host W) (m : Machine W) (a b : Fin 8) (imm : ℤ) :
    Option ℕ × Option ℕ × W :=
  if imm = 0 then
    match vmName host m (scalarOf host m 16 (m.vm.registers a)),
        vmName host m (scalarOf host m 17 (m.vm.registers b)) with
    | some source, some sink =>
      let first := host.fabricGetCell source m.world
      let second := host.fabricGetCell sink first.2
      (first.1, second.1, second.2)
    | _, _ => (none, none, m.world)
  else
    (host.fabricGetCellByCoord (coordOf (m.vm.registers a)) m.world,
      host.fabricGetCellByCoord (coordOf (m.vm.registers b)) m.world, m.world)

def execTroute (host : Host W) (m : Machine W) (d a b : Fin 8) (imm : ℤ) : Err × Machine W :=
  let ends := routeEnds host m a b imm
  let m := { m with world := ends.2.2 }
  match ends.1, ends.2.1 with
  | some source, some sink =>
    if h : m.vm.routeCount < 4 then
      let slot : Fin 4 := ⟨m.vm.routeCount, h⟩
      let count := m.vm.routeCount + 1
      let route := openRoute (m.vm.routeManifest slot) count
        (host.cellAt source m.world).coord (host.cellAt sink m.world).coord
      let vm := { m.vm with
        routeManifest := Function.update m.vm.routeManifest slot route
        routeCount := count }
      vmProceed (setInt32 { m with vm := vm, world := applyRoute host route m.world } d 1)
    else vmProceed (setInt32 m d (-1))
  | _, _ => vmProceed (setInt32 m d (-1))

def execTbias (host : Host W) (m : Machine W) (d a b : Fin 8) : Err × Machine W :=
  let index := scalarOf host m 18 (m.vm.registers a)
  let bias := scalarOf host m 19 (m.vm.registers b)
  if h : 0 ≤ index ∧ index < m.vm.routeCount ∧ index < 4 then
    let slot : Fin 4 := ⟨index.toNat, by omega⟩
    let route := { m.vm.routeManifest slot with orientation := bias }
    let vm := { m.vm with routeManifest := Function.update m.vm.routeManifest slot route }
    vmProceed (setInt32 { m with vm := vm } d 1)
  else vmProceed (setInt32 m d (-1))

def execTsense (host : Host W) (m : Machine W) (d a : Fin 8) (imm : ℤ) : Err × Machine W :=
  let found :=
    if imm = 0 then
      match vmName host m (scalarOf host m 20 (m.vm.registers a)) with
      | some name => host.fabricGetCell name m.world
      | none => (none, m.world)
    else (host.fabricGetCellByCoord (coordOf (m.vm.registers a)) m.world, m.world)
  let m := { m with world := found.2 }
  let state :=
    match found.1 with
    | some c => (host.cellAt c m.world).state
    | none => 0
  vmProceed (m.setReg d (Function.update zeroWord 0 state))

def execute (host : Host W) (m : Machine W) (i : Instruction) : Option (Err × Machine W) :=
  match i.opcode with
  | .tnop => some (vmProceed m)
  | .tldi => withReg i.dst fun d => some (writeResult m d .invalidImmediate (word18FromInt32 i.imm))
  | .tmov => withReg i.dst fun d => withReg i.srcA fun a =>
      some (vmProceed (m.setReg d (m.vm.registers a)))
  | .tadd => withReg i.dst fun d => withReg i.srcA fun a => withReg i.srcB fun b =>
      some (writeResult m d .arithmeticOverflow (word18Add (m.vm.registers a) (m.vm.registers b)))
  | .tsub => withReg i.dst fun d => withReg i.srcA fun a => withReg i.srcB fun b =>
      some (writeResult m d .arithmeticOverflow
        (word18Subtract (m.vm.registers a) (m.vm.registers b)))
  | .tcmp => withReg i.dst fun d => withReg i.srcA fun a => withReg i.srcB fun b =>
      some (execTcmp m d a b)
  | .tsel => withReg i.dst fun d => withReg i.srcA fun a => withReg i.srcB fun b =>
      some (execTsel m d a b i.imm)
  | .tjmp => some (vmJump m i.imm)
  | .tbrneg => withReg i.srcA fun a => some (execBranch m a (-1) i.imm)
  | .tbrzero => withReg i.srcA fun a => some (execBranch m a 0 i.imm)
  | .tbrpos => withReg i.srcA fun a => some (execBranch m a 1 i.imm)
  | .tsend => withReg i.dst fun d => withReg i.srcA fun a => some (execTsend host m d a i.imm)
  | .trecv => withReg i.dst fun d => some (execTrecv host m d)
  | .tsys => withReg i.dst fun d => withReg i.srcA fun a => some (execTsys host m d a i.imm)
  | .thalt => some (vmProceed (m.setStatus .halted))
  | .tld => withReg i.dst fun d => withReg i.srcA fun a => some (execTld m d a)
  | .tst => withReg i.dst fun d => withReg i.srcA fun a => some (execTst m d a)
  | .tflush => withReg i.srcA fun a => some (execCacheOp cacheFlush m a)
  | .tinv => withReg i.srcA fun a => some (execCacheOp cacheFlushInvalidate m a)
  | .troute => withReg i.dst fun d => withReg i.srcA fun a => withReg i.srcB fun b =>
      some (execTroute host m d a b i.imm)
  | .tbias => withReg i.dst fun d => withReg i.srcA fun a => withReg i.srcB fun b =>
      some (execTbias host m d a b)
  | .tsense => withReg i.dst fun d => withReg i.srcA fun a => some (execTsense host m d a i.imm)
  | .unknown _ => some (vmFault m .invalidOpcode)

/-- The fetch: the counters move before the opcode runs. -/
def Machine.advance (m : Machine W) : Machine W :=
  { m with vm := { m.vm with
      status := .running
      ip := (m.vm.ip + 1) % 2 ^ 32
      stepsExecuted := (m.vm.stepsExecuted + 1) % 2 ^ 32 } }

def fetch (vm : VmState) : Option Instruction := (vm.program.getD [])[vm.ip]?

def vmStep (host : Host W) (m : Machine W) : Option (Err × Machine W) :=
  if validateState m.vm ≠ Err.ok then some (validateState m.vm, m)
  else if m.vm.status = .halted then some (Err.invalidState, m)
  else if m.vm.status = .faulted then some (Err.fail, m)
  else
    match fetch m.vm with
    | none => some (vmFault m .pcOutOfRange)
    | some i =>
      if !validateRegisters i then some (vmFault (m.setStatus .running) .invalidRegister)
      else execute host m.advance i

theorem fetch_eq_some_iff (vm : VmState) (i : Instruction) :
    fetch vm = some i ↔
      ∃ h : vm.ip < vm.programLength, (vm.program.getD []).get ⟨vm.ip, h⟩ = i := by
  simp [fetch, VmState.programLength, List.getElem?_eq_some_iff]

theorem validateState_ok {vm : VmState} (h : vm.ip < vm.programLength) :
    validateState vm = Err.ok := by
  have hp : vm.program ≠ none := by
    intro hn
    simp [VmState.programLength, hn] at h
  have h0 : vm.programLength ≠ 0 := by omega
  simp [validateState, hp, h0, h]

theorem vmStep_halted (host : Host W) {m : Machine W} (hip : m.vm.ip < m.vm.programLength)
    (hh : m.vm.status = .halted) : vmStep host m = some (Err.invalidState, m) := by
  simp [vmStep, validateState_ok hip, hh]

theorem vmStep_faulted (host : Host W) {m : Machine W} (hip : m.vm.ip < m.vm.programLength)
    (hx : m.vm.status = .faulted) : vmStep host m = some (Err.fail, m) := by
  simp [vmStep, validateState_ok hip, hx]

/-- Past the end of its program a VM fails every step and never changes. -/
theorem vmStep_past_end (host : Host W) {m : Machine W} (hn : 0 < m.vm.programLength)
    (hip : m.vm.programLength ≤ m.vm.ip) :
    vmStep host m = some (Fault.pcOutOfRange.code, m) := by
  have hp : m.vm.program ≠ none := by
    intro hp
    simp [VmState.programLength, hp] at hn
  have hv : validateState m.vm = Fault.pcOutOfRange.code := by
    rw [validateState, if_neg hp, if_neg (by omega), if_pos hip]
  rw [vmStep, hv]
  simp [Fault.code, Err.ok]

/-- A step of a live VM fetches and executes the instruction it stands at. -/
theorem vmStep_of_fetch (host : Host W) {m : Machine W} {i : Instruction}
    (hf : fetch m.vm = some i) (hh : m.vm.status ≠ .halted) (hx : m.vm.status ≠ .faulted)
    (hv : validateRegisters i = true) : vmStep host m = execute host m.advance i := by
  obtain ⟨hip, -⟩ := (fetch_eq_some_iff _ _).mp hf
  simp [vmStep, validateState_ok hip, hh, hx, hf, hv]

end ReflexOS.Vm
