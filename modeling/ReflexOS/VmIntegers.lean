import ReflexOS.VmCacheTransparency
import ReflexOS.VmTernaryInt32

set_option autoImplicit false

/-!
# The integer machine

What a program of the VM means: registers and memory cells hold integers of one range, memory is
flat, and an instruction is arithmetic on them. There are no trits, no cache and no host
addresses here.
-/
namespace ReflexOS.Vm
open VmTernary Goose

section Numbers

/-- What a register or a memory cell can hold. -/
structure Number where
  val : ℤ
  range : |val| ≤ word18Max
deriving DecidableEq

def Number.zero : Number := ⟨0, by decide⟩

def Number.ofInt (v : ℤ) : Option Number :=
  if h : |v| ≤ word18Max then some ⟨v, h⟩ else none

/-- The remainder by three that is next to zero. -/
def Number.lowTrit (n : Number) : ℤ := (n.val + 1) % 3 - 1

def Number.word (n : Number) : Word18 := Trits.ofList (digits 18 n.val).1

def Number.ofWord (w : Word18) : Number :=
  if h : word18IsValid w = true then ⟨wordValue w, wordValue_mem h⟩ else Number.zero

def Number.tryte (n : Number) : Tryte9 := coordOf n.word

end Numbers

/-- A machine that has faulted or halted stays where it is. -/
inductive Condition where
  | live
  | halted
  | faulted (f : Fault)
deriving DecidableEq

/-- `memory` is `none` outside the map. -/
structure IntMachine (W : Type*) where
  condition : Condition
  pc : ℕ
  registers : Fin 8 → Number
  memory : ℕ → Option Number
  program : List Instruction
  nodeId : ℕ
  syscalls : Bool
  routes : Fin 4 → Route
  routeCount : ℕ
  world : W

namespace IntMachine

variable {W : Type*}

def set (a : IntMachine W) (r : Fin 8) (n : Number) : IntMachine W :=
  { a with registers := Function.update a.registers r n }

def fault (a : IntMachine W) (f : Fault) : Err × IntMachine W :=
  (Err.fail, { a with condition := .faulted f })

def proceed (a : IntMachine W) : Err × IntMachine W := (Err.ok, a)

/-- The result of an operation into `d`, or the fault where it has none. -/
def deliver (a : IntMachine W) (d : Fin 8) (f : Fault) : Option Number → Err × IntMachine W
  | some n => (a.set d n).proceed
  | none => a.fault f

/-- A small constant into `d`. -/
def answer (a : IntMachine W) (d : Fin 8) (v : ℤ) : Err × IntMachine W :=
  (a.set d ((Number.ofInt v).getD .zero)).proceed

def jump (a : IntMachine W) (target : ℤ) : Err × IntMachine W :=
  if target < 0 ∨ a.program.length ≤ u32 target then a.fault .pcOutOfRange
  else ({ a with pc := u32 target }).proceed

def branch (a : IntMachine W) (r : Fin 8) (sign target : ℤ) : Err × IntMachine W :=
  if (a.registers r).lowTrit = sign then a.jump target else a.proceed

def select (a : IntMachine W) (d r z : Fin 8) (imm : ℤ) : Err × IntMachine W :=
  let chosen :=
    if (a.registers r).lowTrit = -1 then immRegister imm 0
    else if (a.registers r).lowTrit = 0 then z
    else immRegister imm 3
  (a.set d (a.registers chosen)).proceed

def load (a : IntMachine W) (d r : Fin 8) : Err × IntMachine W :=
  a.deliver d .invalidMemoryAccess (a.memory (u32 (a.registers r).val))

def store (a : IntMachine W) (d r : Fin 8) : Err × IntMachine W :=
  let addr := u32 (a.registers d).val
  if (a.memory addr).isSome then
    ({ a with memory := Function.update a.memory addr (some (a.registers r)) }).proceed
  else a.fault .invalidMemoryAccess

def send (host : Host W) (a : IntMachine W) (d r : Fin 8) (imm : ℤ) : Err × IntMachine W :=
  let target := (a.registers d).val
  if target < 0 ∨ target > 255 then a.fault .invalidImmediate
  else
    let sent := host.fabricSend ⟨u8 target, a.nodeId, u8 imm, (a.registers r).word⟩ a.world
    let a := { a with world := sent.2 }
    if sent.1 = Err.ok then a.proceed else a.fault .invalidSyscall

def recv (host : Host W) (a : IntMachine W) (d : Fin 8) : Err × IntMachine W :=
  let received := host.fabricRecv a.nodeId a.world
  let a := { a with world := received.2 }
  match received.1 with
  | .ok msg => (a.set d (.ofWord msg.payload)).proceed
  | .error e => (if e = Err.notFound then a.set d .zero else a).proceed

/-- The four calls: log, uptime, configuration and delay. -/
def syscall (host : Host W) (id : ℤ) (n : Number) (w : W) : Option Number × W :=
  if id = 0 then (Number.ofInt 0, host.printLog n.val w)
  else if id = 1 then (Number.ofInt (i32 (host.timeUs w / 1000)), w)
  else if id = 2 then
    if n.val = 0 then
      match host.configDeviceName w with
      | .error _ => (none, w)
      | .ok name => (Number.ofInt name.length, w)
    else if n.val = 1 then
      match host.configLogLevel w with
      | .error _ => (none, w)
      | .ok level => (Number.ofInt level, w)
    else (none, w)
  else if id = 3 then
    if n.val < 0 then (none, w)
    else (Number.ofInt 0, host.taskDelayMs (u32 n.val) w)
  else (none, w)

def sys (host : Host W) (a : IntMachine W) (d r : Fin 8) (imm : ℤ) : Err × IntMachine W :=
  if a.syscalls then
    let called := syscall host imm (a.registers r) a.world
    ({ a with world := called.2 }).deliver d .invalidSyscall called.1
  else a.fault .invalidSyscall

/-- The characters stored from `addr` on, one in each cell, at most `n` of them. -/
def string (a : IntMachine W) (addr : ℕ) : ℕ → Option CName
  | 0 => some []
  | n + 1 =>
    match a.memory (addr % 2 ^ 32) with
    | none => none
    | some v =>
      if v.val = 0 then some []
      else (a.string (addr + 1) n).map (UInt8.ofNat (u8 v.val) :: ·)

def name (a : IntMachine W) (n : Number) : Option CName := (a.string (u32 n.val) 15).map cString

def routeEnds (host : Host W) (a : IntMachine W) (r s : Fin 8) (imm : ℤ) :
    Option ℕ × Option ℕ × W :=
  if imm = 0 then
    match a.name (a.registers r), a.name (a.registers s) with
    | some source, some sink =>
      let first := host.fabricGetCell source a.world
      let second := host.fabricGetCell sink first.2
      (first.1, second.1, second.2)
    | _, _ => (none, none, a.world)
  else
    (host.fabricGetCellByCoord (a.registers r).tryte a.world,
      host.fabricGetCellByCoord (a.registers s).tryte a.world, a.world)

/-- A route between two cells, if both exist and a slot is left; 1 or -1 into `d`. -/
def route (host : Host W) (a : IntMachine W) (d r s : Fin 8) (imm : ℤ) : Err × IntMachine W :=
  let ends := a.routeEnds host r s imm
  let a := { a with world := ends.2.2 }
  match ends.1, ends.2.1 with
  | some source, some sink =>
    if h : a.routeCount < 4 then
      let slot : Fin 4 := ⟨a.routeCount, h⟩
      let count := a.routeCount + 1
      let opened := openRoute (a.routes slot) count
        (host.cellAt source a.world).coord (host.cellAt sink a.world).coord
      ({ a with
        routes := Function.update a.routes slot opened
        routeCount := count
        world := applyRoute host opened a.world }).answer d 1
    else a.answer d (-1)
  | _, _ => a.answer d (-1)

def bias (a : IntMachine W) (d r s : Fin 8) : Err × IntMachine W :=
  let index := (a.registers r).val
  if h : 0 ≤ index ∧ index < a.routeCount ∧ index < 4 then
    let slot : Fin 4 := ⟨index.toNat, by omega⟩
    let biased := { a.routes slot with orientation := (a.registers s).val }
    ({ a with routes := Function.update a.routes slot biased }).answer d 1
  else a.answer d (-1)

def sense (host : Host W) (a : IntMachine W) (d r : Fin 8) (imm : ℤ) : Err × IntMachine W :=
  let found :=
    if imm = 0 then
      match a.name (a.registers r) with
      | some name => host.fabricGetCell name a.world
      | none => (none, a.world)
    else (host.fabricGetCellByCoord (a.registers r).tryte a.world, a.world)
  let a := { a with world := found.2 }
  let state :=
    match found.1 with
    | some c => (host.cellAt c a.world).state
    | none => 0
  a.answer d state

def execute (host : Host W) (a : IntMachine W) (i : Instruction) : Option (Err × IntMachine W) :=
  match i.opcode with
  | .tnop => some a.proceed
  | .tldi => withReg i.dst fun d => some (a.deliver d .invalidImmediate (Number.ofInt i.imm))
  | .tmov => withReg i.dst fun d => withReg i.srcA fun r =>
      some (a.set d (a.registers r)).proceed
  | .tadd => withReg i.dst fun d => withReg i.srcA fun r => withReg i.srcB fun s =>
      some (a.deliver d .arithmeticOverflow
        (Number.ofInt ((a.registers r).val + (a.registers s).val)))
  | .tsub => withReg i.dst fun d => withReg i.srcA fun r => withReg i.srcB fun s =>
      some (a.deliver d .arithmeticOverflow
        (Number.ofInt ((a.registers r).val - (a.registers s).val)))
  | .tcmp => withReg i.dst fun d => withReg i.srcA fun r => withReg i.srcB fun s =>
      some (a.answer d (Int.sign ((a.registers r).val - (a.registers s).val)))
  | .tsel => withReg i.dst fun d => withReg i.srcA fun r => withReg i.srcB fun s =>
      some (a.select d r s i.imm)
  | .tjmp => some (a.jump i.imm)
  | .tbrneg => withReg i.srcA fun r => some (a.branch r (-1) i.imm)
  | .tbrzero => withReg i.srcA fun r => some (a.branch r 0 i.imm)
  | .tbrpos => withReg i.srcA fun r => some (a.branch r 1 i.imm)
  | .tsend => withReg i.dst fun d => withReg i.srcA fun r => some (a.send host d r i.imm)
  | .trecv => withReg i.dst fun d => some (a.recv host d)
  | .tsys => withReg i.dst fun d => withReg i.srcA fun r => some (a.sys host d r i.imm)
  | .thalt => some ({ a with condition := .halted }).proceed
  | .tld => withReg i.dst fun d => withReg i.srcA fun r => some (a.load d r)
  | .tst => withReg i.dst fun d => withReg i.srcA fun r => some (a.store d r)
  | .tflush | .tinv => withReg i.srcA fun _ => some a.proceed
  | .troute => withReg i.dst fun d => withReg i.srcA fun r => withReg i.srcB fun s =>
      some (a.route host d r s i.imm)
  | .tbias => withReg i.dst fun d => withReg i.srcA fun r => withReg i.srcB fun s =>
      some (a.bias d r s)
  | .tsense => withReg i.dst fun d => withReg i.srcA fun r => some (a.sense host d r i.imm)
  | .unknown _ => some (a.fault .invalidOpcode)

/-- The program counter moves before the instruction runs. -/
def advance (a : IntMachine W) : IntMachine W := { a with pc := (a.pc + 1) % 2 ^ 32 }

/-- One instruction; `none` where it names a register that there is not. -/
def step (host : Host W) (a : IntMachine W) : Option (Err × IntMachine W) :=
  match a.program[a.pc]? with
  | none => some (if a.program = [] then Err.invalidState else Fault.pcOutOfRange.code, a)
  | some i =>
    match a.condition with
    | .halted => some (Err.invalidState, a)
    | .faulted _ => some (Err.fail, a)
    | .live =>
      if validateRegisters i then execute host a.advance i
      else some (a.fault .invalidRegister)

end IntMachine

section Representation

variable {v : ℤ}

theorem ofInt_some (h : |v| ≤ word18Max) : Number.ofInt v = some ⟨v, h⟩ := dif_pos h

theorem word_spec (n : Number) : word18FromInt32 n.val = .ok n.word ∧
    word18IsValid n.word = true ∧ wordValue n.word = n.val := by
  obtain ⟨w, hw, hvalid, hvalue⟩ := (word18FromInt32_computes n.val).ok n.range
  have hword : n.word = w := by
    unfold word18FromInt32 at hw
    dsimp only at hw
    split at hw
    · exact Except.ok.inj hw
    · cases hw
  rw [hword]
  exact ⟨hw, hvalid, hvalue⟩

theorem word_valid (n : Number) : word18IsValid n.word = true := (word_spec n).2.1

@[simp] theorem wordValue_word (n : Number) : wordValue n.word = n.val := (word_spec n).2.2

@[simp] theorem toInt32_word (n : Number) : word18ToInt32 n.word = .ok n.val := by
  rw [word18ToInt32_value (word_valid n), wordValue_word]

theorem word_ofWord {w : Word18} (h : word18IsValid w = true) : (Number.ofWord w).word = w := by
  apply eq_of_wordValue (word_valid _) h
  rw [wordValue_word, Number.ofWord, dif_pos h]

theorem word_zero : Number.zero.word = zeroWord := by decide

/-- The lowest trit of a word is the remainder of its value. -/
theorem word_lowTrit (n : Number) : n.word 0 = n.lowTrit := by
  have hsplit : n.val = (digit n.val).1 + 3 * (digit n.val).2 := divides_digit.sum n.val
  obtain ⟨hlo, hhi⟩ := divides_digit.digit n.val
  change (digit n.val).1 = (n.val + 1) % 3 - 1
  omega

theorem trit_valid {t : ℤ} (h : BalancedTernary.Digit t) :
    ((Number.ofInt t).getD .zero).word = Function.update zeroWord 0 t := by
  obtain ⟨hlo, hhi⟩ := h
  obtain rfl | rfl | rfl : t = -1 ∨ t = 0 ∨ t = 1 := by omega
  all_goals decide

/-- A result in words is the number, or there is none on either side. -/
inductive Delivers : Except Err Word18 → Option Number → Prop where
  | some (n : Number) : Delivers (.ok n.word) (some n)
  | none (e : Err) : Delivers (.error e) none

theorem delivers_of_computes {r : Except Err Word18} (h : Computes v r) :
    Delivers r (Number.ofInt v) := by
  cases h with
  | fits w valid value =>
    have hrange : |v| ≤ word18Max := value ▸ wordValue_mem valid
    have hword : w = (⟨v, hrange⟩ : Number).word :=
      eq_of_wordValue valid (word_valid _) (by rw [wordValue_word, value])
    rw [ofInt_some hrange, hword]
    exact .some _
  | overflows e failed range =>
    rw [Number.ofInt, dif_neg range]
    exact .none e

theorem fromInt32_delivers (v : ℤ) : Delivers (word18FromInt32 v) (Number.ofInt v) :=
  delivers_of_computes (word18FromInt32_computes v)

theorem add_delivers (a b : Number) :
    Delivers (word18Add a.word b.word) (Number.ofInt (a.val + b.val)) := by
  have h := delivers_of_computes (word18Add_computes (word_valid a) (word_valid b))
  rwa [wordValue_word, wordValue_word] at h

theorem subtract_delivers (a b : Number) :
    Delivers (word18Subtract a.word b.word) (Number.ofInt (a.val - b.val)) := by
  have h := delivers_of_computes (word18Subtract_computes (word_valid a) (word_valid b))
  rwa [wordValue_word, wordValue_word] at h

theorem sign_trit (v : ℤ) : BalancedTernary.Digit (Int.sign v) := by
  unfold BalancedTernary.Digit
  rcases lt_trichotomy v 0 with h | h | h
  · rw [Int.sign_eq_neg_one_of_neg h]
    omega
  · rw [h, Int.sign_zero]
    omega
  · rw [Int.sign_eq_one_of_pos h]
    omega

end Representation

end ReflexOS.Vm
